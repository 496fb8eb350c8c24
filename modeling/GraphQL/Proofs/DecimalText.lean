import GraphQL.Proofs.UntypedReading

/-!
A decimal is read back from its text as it is, with its sign, its digits and its exponent. Plain and
scientific notation are two forms of one numeral: digits, perhaps a point among them, and perhaps an
exponent.
-/

namespace GraphQL

namespace Text

/-- Every character is one of the ten digits. -/
def AreDigits (cs : List Char) : Prop := ∀ c ∈ cs, ∃ d < 10, c = Nat.digitChar d

theorem areDigits_toDigits (n : Nat) : AreDigits (Nat.toDigits 10 n) := fun _ => mem_toDigits

theorem areDigits_zeros (count : Nat) : AreDigits (List.replicate count '0') := fun _ member =>
  ⟨0, by decide, List.eq_of_mem_replicate member⟩

theorem AreDigits.append {front back : List Char} (first : AreDigits front)
    (second : AreDigits back) : AreDigits (front ++ back) := fun c member =>
  (List.mem_append.1 member).elim (first c) (second c)

theorem AreDigits.of_sublist {part whole : List Char} (digits : AreDigits whole)
    (inside : part.Sublist whole) : AreDigits part := fun c member =>
  digits c (inside.subset member)

theorem AreDigits.length_filterMap {read : Char → Option Nat} {cs : List Char}
    (digits : AreDigits cs) (each : ∀ d < 10, read (Nat.digitChar d) = some d) :
    (cs.filterMap read).length = cs.length := by
  induction cs with
  | nil => rfl
  | cons c rest ih =>
      obtain ⟨d, small, rfl⟩ := digits c (by simp)
      rw [List.filterMap_cons, each d small]
      simp [ih fun c member => digits c (List.mem_cons_of_mem _ member)]

theorem ofDigits_zeros_append (count : Nat) (digits : List Nat) :
    ofDigits (List.replicate count 0 ++ digits) = ofDigits digits := by
  induction count with
  | zero => rfl
  | succ count ih => rw [List.replicate_succ, List.cons_append, ← ih]; rfl

theorem trim_of_none {blank : Char → Bool} {cs : List Char} (none : ∀ c ∈ cs, blank c = false) :
    trim blank cs = cs := by
  have kept {cs : List Char} (none : ∀ c ∈ cs, blank c = false) : cs.dropWhile blank = cs := by
    cases cs with
    | nil => rfl
    | cons c rest => rw [List.dropWhile_cons_of_neg (by simp [none c])]
  rw [trim, trimRight, trimLeft, kept none, kept (by simpa using none), List.reverse_reverse]

end Text

namespace Decimal

open Text

/-- A character that a decimal text may hold as it is. -/
def isPlain (c : Char) : Bool :=
  !isBlank c && c != '_' && (digitValue? c).all fun digit => Char.ofNat (digit + 48) == c

theorem isPlain_digitChar {d : Nat} (small : d < 10) : isPlain (Nat.digitChar d) = true := by
  interval_cases d <;> decide

theorem isPlain_of_digits {cs : List Char} (digits : AreDigits cs) :
    ∀ c ∈ cs, isPlain c = true := by
  intro c member
  obtain ⟨d, small, rfl⟩ := digits c member
  exact isPlain_digitChar small

theorem plainChars_of_plain {cs : List Char} (plain : ∀ c ∈ cs, isPlain c = true) :
    plainChars (String.ofList cs) = cs := by
  have blankless : ∀ c ∈ cs, isBlank c = false := fun c member => by
    have := plain c member
    simp only [isPlain, Bool.and_eq_true, Bool.not_eq_true'] at this
    exact this.1.1
  have kept : cs.filter (· != '_') = cs := by
    refine List.filter_eq_self.2 fun c member => ?_
    have := plain c member
    simp only [isPlain, Bool.and_eq_true] at this
    exact this.1.2
  rw [plainChars, String.toList_ofList, trim_of_none blankless, kept]
  refine (List.map_congr_left fun c member => ?_).trans (List.map_id cs)
  have := plain c member
  simp only [isPlain, Bool.and_eq_true] at this
  cases value : digitValue? c with
  | none => rfl
  | some digit => exact beq_iff_eq.1 (by simpa [value] using this.2)

end Decimal

namespace Numeral

open Text

theorem takeDigits_front {front rest : List Char} (digits : AreDigits front)
    (stops : ∀ c ∈ rest.head?, digitValue? c = none) :
    takeDigits (front ++ rest) = (front.filterMap digitValue?, rest) := by
  induction front with
  | nil =>
      cases rest with
      | nil => rfl
      | cons c later => simp [takeDigits, stops c rfl]
  | cons c later ih =>
      obtain ⟨d, small, rfl⟩ := digits c (by simp)
      simp [takeDigits, digitValue?_digitChar small,
        ih fun c member => digits c (List.mem_cons_of_mem _ member)]

theorem takeSign_of_digits (negative : Bool) {front rest : List Char} (digits : AreDigits front)
    (nonempty : front ≠ []) :
    takeSign (Decimal.signText negative ++ (front ++ rest)) = (negative, front ++ rest) := by
  cases negative with
  | true => rfl
  | false =>
      cases front with
      | nil => exact absurd rfl nonempty
      | cons c later =>
          obtain ⟨d, small, rfl⟩ := digits c (by simp)
          change takeSign (Nat.digitChar d :: (later ++ rest)) = _
          interval_cases d <;> rfl

theorem takeExponent_signedText (exponent : Int) :
    takeExponent ('E' :: Decimal.signedText exponent) = (exponent, []) := by
  have digits : takeDigits (Nat.toDigits 10 exponent.natAbs)
      = ((Nat.toDigits 10 exponent.natAbs).filterMap digitValue?, []) :=
    takeDigits_of_digits (areDigits_toDigits _)
  have size : ofDigits ((Nat.toDigits 10 exponent.natAbs).filterMap digitValue?)
      = exponent.natAbs :=
    ofDigits_toDigits (fun _ => digitValue?_digitChar) _
  have nonempty : (Nat.toDigits 10 exponent.natAbs).filterMap digitValue? ≠ [] := by
    refine List.ne_nil_of_length_pos ?_
    rw [(areDigits_toDigits _).length_filterMap fun _ => digitValue?_digitChar]
    exact Nat.length_toDigits_pos
  obtain ⟨first, later, shown⟩ := List.exists_cons_of_ne_nil nonempty
  rw [shown] at digits size
  simp only [takeExponent, Decimal.signedText, Decimal.digits]
  by_cases negative : exponent < 0
  · have value : -(exponent.natAbs : Int) = exponent := by omega
    simpa only [negative, if_true, takeSign, digits, size, or_true, Prod.mk.injEq, and_true]
      using value
  · have value : (exponent.natAbs : Int) = exponent := by omega
    simpa only [negative, if_false, takeSign, digits, size, or_true, if_true, Bool.false_eq_true,
      Prod.mk.injEq, and_true] using value

/-- The parts that a numeral is written in. -/
structure Parts where
  whole : List Char
  fraction : List Char
  exponent : Option Int

namespace Parts

/-- The point stands only in front of a digit. -/
def pointed (fraction : List Char) : List Char :=
  if fraction.isEmpty then [] else '.' :: fraction

def marked : Option Int → List Char
  | none => []
  | some exponent => 'E' :: Decimal.signedText exponent

def chars (parts : Parts) : List Char :=
  parts.whole ++ (pointed parts.fraction ++ marked parts.exponent)

structure IsWritten (parts : Parts) : Prop where
  nonempty : parts.whole ≠ []
  whole : AreDigits parts.whole
  fraction : AreDigits parts.fraction

/-- The numeral that the parts stand for. -/
def numeral (negative : Bool) (parts : Parts) : Numeral :=
  ⟨negative, parts.whole.filterMap digitValue?, parts.fraction.filterMap digitValue?,
    parts.exponent.getD 0⟩

theorem takeExponent_marked (exponent : Option Int) :
    takeExponent (marked exponent) = (exponent.getD 0, []) := by
  cases exponent with
  | none => rfl
  | some exponent => exact takeExponent_signedText exponent

theorem digitValue?_head_marked (exponent : Option Int) :
    ∀ c ∈ (marked exponent).head?, digitValue? c = none := by
  intro c here
  cases exponent with
  | none => cases here
  | some exponent =>
      cases here
      rfl

theorem takeFraction_pointed {fraction : List Char} (digits : AreDigits fraction)
    (exponent : Option Int) :
    takeFraction (pointed fraction ++ marked exponent)
      = (fraction.filterMap digitValue?, marked exponent) := by
  cases fraction with
  | nil =>
      cases exponent with
      | none => rfl
      | some exponent => rfl
  | cons c later => exact takeDigits_front digits (digitValue?_head_marked exponent)

theorem digitValue?_head_pointed (fraction : List Char) (exponent : Option Int) :
    ∀ c ∈ (pointed fraction ++ marked exponent).head?, digitValue? c = none := by
  intro c here
  cases fraction with
  | nil => exact digitValue?_head_marked exponent c here
  | cons first later =>
      cases here
      rfl

theorem ofChars?_chars {parts : Parts} (written : parts.IsWritten) (negative : Bool) :
    ofChars? (Decimal.signText negative ++ parts.chars) = some (parts.numeral negative) := by
  have nonempty : (parts.whole.filterMap digitValue?).isEmpty = false := by
    have size := written.whole.length_filterMap fun _ => digitValue?_digitChar
    have positive := List.length_pos_iff.2 written.nonempty
    exact List.isEmpty_eq_false_iff.2 (List.ne_nil_of_length_pos (by omega))
  have whole := takeDigits_front written.whole
    (digitValue?_head_pointed parts.fraction parts.exponent)
  rw [ofChars?, scan?, chars, takeSign_of_digits negative written.whole written.nonempty]
  simp only [whole, takeFraction_pointed written.fraction, takeExponent_marked, nonempty]
  rfl

theorem isPlain_chars {parts : Parts} (written : parts.IsWritten) (negative : Bool) :
    ∀ c ∈ Decimal.signText negative ++ parts.chars, Decimal.isPlain c = true := by
  intro c member
  rcases List.mem_append.1 member with sign | member
  · cases negative with
    | true => cases List.mem_singleton.1 sign; decide
    | false => cases sign
  rcases List.mem_append.1 member with whole | member
  · exact Decimal.isPlain_of_digits written.whole c whole
  rcases List.mem_append.1 member with fraction | exponent
  · unfold pointed at fraction
    split at fraction
    · cases fraction
    · rcases List.mem_cons.1 fraction with rfl | fraction
      · decide
      · exact Decimal.isPlain_of_digits written.fraction c fraction
  · cases shown : parts.exponent with
    | none => rw [shown] at exponent; cases exponent
    | some size =>
        rw [shown] at exponent
        rcases List.mem_cons.1 exponent with rfl | exponent
        · decide
        rcases List.mem_cons.1 exponent with rfl | exponent
        · split <;> decide
        · exact Decimal.isPlain_of_digits (areDigits_toDigits _) c exponent

end Parts

end Numeral

namespace Decimal

open Text

theorem ofDigits_digits (n : Nat) : ofDigits ((digits n).filterMap digitValue?) = n :=
  ofDigits_toDigits (fun _ => digitValue?_digitChar) n

/-- Parts that hold the digits of a coefficient between them, scaled to an exponent. -/
structure Shows (parts : Numeral.Parts) (coefficient : Nat) (exponent : Int) : Prop where
  written : parts.IsWritten
  coefficient : ofDigits ((parts.whole ++ parts.fraction).filterMap digitValue?) = coefficient
  scale : parts.exponent.getD 0 - parts.fraction.length = exponent

/-- Whatever the notation, the text of a number shows its coefficient and its exponent. -/
theorem finiteText_shows (coefficient : Nat) (exponent : Int) :
    ∃ parts : Numeral.Parts, finiteText coefficient exponent = parts.chars
      ∧ Shows parts coefficient exponent := by
  have shown : AreDigits (digits coefficient) := areDigits_toDigits coefficient
  have positive : 0 < (digits coefficient).length := Nat.length_toDigits_pos
  unfold finiteText
  dsimp only
  split
  · next plain =>
      split
      · -- All digits stand behind the point, after as many zeros as it takes.
        next small =>
        have zeros := areDigits_zeros (-((digits coefficient).length + exponent)).toNat
        refine ⟨⟨['0'], _ ++ digits coefficient, none⟩, ?_,
          ⟨⟨by simp, areDigits_zeros 1, zeros.append shown⟩, ?_, ?_⟩⟩
        · simp [Numeral.Parts.chars, Numeral.Parts.pointed, Numeral.Parts.marked,
            List.ne_nil_of_length_pos positive]
        · have read : digitValue? '0' = some 0 := rfl
          rw [← List.append_assoc, List.filterMap_append, ← List.replicate_one,
            List.replicate_append_replicate, List.filterMap_replicate_of_some read,
            ofDigits_zeros_append, ofDigits_digits]
        · simp only [Option.getD_none, List.length_append, List.length_replicate]
          omega
      · next large =>
        split
        · next whole =>
            refine ⟨⟨digits coefficient, [], none⟩, ?_, ⟨⟨?_, shown, ?_⟩, ?_, ?_⟩⟩
            · simp [Numeral.Parts.chars, Numeral.Parts.pointed, Numeral.Parts.marked]
            · exact List.ne_nil_of_length_pos positive
            · exact areDigits_zeros 0
            · rw [List.append_nil, ofDigits_digits]
            · simpa using whole.symm
        · next fractional =>
            let point := ((digits coefficient).length + exponent : Int).toNat
            have inside : point < (digits coefficient).length := by omega
            have front : 0 < ((digits coefficient).take point).length := by
              rw [List.length_take]
              omega
            have back : 0 < ((digits coefficient).drop point).length := by
              rw [List.length_drop]
              omega
            refine ⟨⟨(digits coefficient).take point, (digits coefficient).drop point, none⟩, ?_,
              ⟨⟨?_, shown.of_sublist (List.take_sublist ..),
                shown.of_sublist (List.drop_sublist ..)⟩, ?_, ?_⟩⟩
            · simp [Numeral.Parts.chars, Numeral.Parts.pointed, Numeral.Parts.marked, point,
                List.ne_nil_of_length_pos back]
            · exact List.ne_nil_of_length_pos front
            · rw [List.take_append_drop, ofDigits_digits]
            · rw [List.length_drop]
              simp only [Option.getD_none]
              omega
  · -- In scientific notation the first digit stands alone.
    obtain ⟨first, later, split⟩ := List.exists_cons_of_ne_nil (List.ne_nil_of_length_pos positive)
    rw [split] at shown
    refine ⟨⟨[first], later, some ((digits coefficient).length + exponent - 1)⟩, ?_,
      ⟨⟨by simp, shown.of_sublist (by simp), shown.of_sublist (List.sublist_cons_self ..)⟩, ?_, ?_⟩⟩
    · rw [split]
      cases later with
      | nil => rfl
      | cons second rest => rfl
    · rw [List.singleton_append, ← split, ofDigits_digits]
    · rw [split, List.length_cons]
      simp only [Option.getD_some]
      omega

theorem toLower_digits {cs : List Char} (each : AreDigits cs) : cs.map Char.toLower = cs := by
  refine (List.map_congr_left fun c member => ?_).trans (List.map_id cs)
  obtain ⟨d, small, rfl⟩ := each c member
  interval_cases d <;> rfl

theorem payload?_of_digits {cs : List Char} (each : AreDigits cs) :
    payload? cs = some (ofDigits (cs.filterMap asciiDigit?)) := by
  have all : cs.mapM asciiDigit? = some (cs.filterMap asciiDigit?) := by
    induction cs with
    | nil => rfl
    | cons c rest ih =>
        obtain ⟨d, small, rfl⟩ := each c (by simp)
        rw [List.mapM_cons, ih fun c member => each c (List.mem_cons_of_mem _ member),
          List.filterMap_cons, asciiDigit?_digitChar small]
        rfl
  rw [payload?, all]
  rfl

/-- The digits that a diagnostic payload is written in; nothing is written for 0. -/
def payloadText (payload : Nat) : List Char := if payload = 0 then [] else digits payload

theorem areDigits_payloadText (payload : Nat) : AreDigits (payloadText payload) := by
  unfold payloadText
  split
  · exact areDigits_zeros 0
  · exact areDigits_toDigits payload

theorem payload?_payloadText (payload : Nat) :
    payload? ((payloadText payload).map Char.toLower) = some payload := by
  rw [toLower_digits (areDigits_payloadText payload),
    payload?_of_digits (areDigits_payloadText payload)]
  unfold payloadText
  split
  · next zero => rw [zero]; rfl
  · exact congrArg some (ofDigits_toDigits (fun _ => asciiDigit?_digitChar) payload)

/-- The text of a value that is no number, before its payload. -/
def nanText (negative signaling : Bool) : List Char :=
  signText negative ++ (if signaling then ['s'] else []) ++ ['N', 'a', 'N']

theorem read?_nan (negative signaling : Bool) (payload : Nat) :
    read? (nan negative signaling payload).text = some (nan negative signaling payload) := by
  have shown : (nan negative signaling payload).text
      = String.ofList (nanText negative signaling ++ payloadText payload) := rfl
  have word : (nanText negative signaling).all isPlain = true := by
    cases negative <;> cases signaling <;> decide
  have plain : ∀ c ∈ nanText negative signaling ++ payloadText payload, isPlain c = true :=
    fun c member => (List.mem_append.1 member).elim (List.all_eq_true.1 word c)
      (isPlain_of_digits (areDigits_payloadText payload) c)
  have payloadRead := payload?_payloadText payload
  rw [shown, read?, plainChars_of_plain plain]
  generalize payloadText payload = digits at payloadRead
  have unnumbered : Numeral.ofChars? (nanText negative signaling ++ digits) = none := by
    cases negative <;> cases signaling <;> rfl
  simp only [unnumbered]
  cases negative <;> cases signaling
  all_goals
    change (payload? (digits.map Char.toLower)).map _ = _
    rw [payloadRead]
    rfl

theorem read?_infinite (negative : Bool) :
    read? (infinite negative).text = some (infinite negative) := by
  cases negative <;> decide +kernel

/-- Exponents stay within the bounds of the format; what is no finite number has none. -/
def IsRepresentable : Decimal → Prop
  | finite _ coefficient exponent => inBounds coefficient exponent = true
  | infinite _ | nan .. => True

theorem read?_finite {negative : Bool} {coefficient : Nat} {exponent : Int}
    (bounded : inBounds coefficient exponent = true) :
    read? (finite negative coefficient exponent).text
      = some (finite negative coefficient exponent) := by
  obtain ⟨parts, shown, shows⟩ := finiteText_shows coefficient exponent
  have size : (parts.numeral negative).coefficient = coefficient := by
    rw [← shows.coefficient, List.filterMap_append]
    rfl
  have scale : (parts.numeral negative).scale = exponent := by
    have length := shows.written.fraction.length_filterMap fun _ => digitValue?_digitChar
    rw [← shows.scale, ← length]
    rfl
  have plain := Numeral.Parts.isPlain_chars shows.written negative
  rw [text, shown, read?, plainChars_of_plain plain]
  simp only [Numeral.Parts.ofChars?_chars shows.written, ofNumeral?, size, scale, bounded, if_true]
  rfl

/-- A decimal is read back from its text. -/
theorem read?_text {d : Decimal} (representable : d.IsRepresentable) :
    read? d.text = some d := by
  cases d with
  | finite negative coefficient exponent => exact read?_finite representable
  | infinite negative => exact read?_infinite negative
  | nan negative signaling payload => exact read?_nan negative signaling payload

end Decimal

end GraphQL
