import LineCalc.Proofs.Token.Spelling
import Mathlib.Data.List.DropRight

/-!
# Tokens of texts that are put together

A text can be cut anywhere, and the tokens of its two parts are its own, unless the cut goes through a number:
then the number that ends the first part goes on in the second. A number is open to that when there is a digit
among the digits, points and slashes at the end of its text, wherever the digit stands among them.
-/

set_option autoImplicit false

namespace LineCalc.Token

/-! ## Characters that are not skipped -/

theorem mem_symbols_iff {character : Char} :
    character ∈ symbols ↔ ∃ token, ofSymbol? character = some token := by
  constructor
  · intro member
    have each : symbols.all (fun symbol => (ofSymbol? symbol).isSome) = true := by decide
    exact Option.isSome_iff_exists.mp (List.all_eq_true.mp each character member)
  · rintro ⟨token, read⟩
    exact mem_symbols_of_ofSymbol? read

/-- Digits and the characters that are tokens by themselves. -/
def isSignificant (character : Char) : Bool :=
  character.isDigit || symbols.contains character

private theorem isSignificant_eq_false {character : Char} (digit : character.isDigit = false)
    (symbol : ofSymbol? character = none) : isSignificant character = false := by
  have skipped : character ∉ symbols := by
    intro member
    obtain ⟨token, read⟩ := mem_symbols_iff.mp member
    rw [symbol] at read
    cases read
  simpa [isSignificant, digit] using skipped

/-- The texts of the tokens are what is left of a text without characters that are skipped. -/
theorem sublist_of_spells {tokens : List Token} {text : List Char} (spells : Spells tokens text) :
    (tokens.flatMap (·.text.toList)).Sublist text ∧
      (tokens.flatMap (·.text.toList)).filter isSignificant = text.filter isSignificant := by
  induction spells with
  | nil => exact ⟨.slnil, rfl⟩
  | skipped digit symbol _ ih =>
    have skipped := isSignificant_eq_false digit symbol
    exact ⟨ih.1.cons _, by rw [ih.2, List.filter_cons_of_neg (by simp [skipped])]⟩
  | @symbol token tokens character text read _ ih =>
    rw [List.flatMap_cons, text_of_ofSymbol? read, List.singleton_append]
    exact ⟨ih.1.cons_cons character, by rw [List.filter_cons, List.filter_cons, ih.2]⟩
  | @number literal tokens text _ _ _ ih =>
    rw [List.flatMap_cons, List.filter_append, List.filter_append, ih.2]
    exact ⟨ih.1.append_left literal.toList, rfl⟩

/-! ## Numbers at the end of a text -/

/-- There is a digit in the run of digits, points and slashes at the end of a text. -/
def endsInNumber (text : List Char) : Bool :=
  (text.rtakeWhile continuesNumber).any Char.isDigit

theorem endsInNumber_iff {text : List Char} :
    endsInNumber text = true ↔ ∃ before digit more, text = before ++ digit :: more ∧
      digit.isDigit = true ∧ ∀ character ∈ more, continuesNumber character = true := by
  rw [endsInNumber, List.any_eq_true]
  constructor
  · rintro ⟨digit, inside, isDigit⟩
    obtain ⟨first, more, split⟩ := List.append_of_mem inside
    refine ⟨text.rdropWhile continuesNumber ++ first, digit, more, ?_, isDigit, ?_⟩
    · rw [List.append_assoc, ← split, List.rdropWhile_append_rtakeWhile]
    · intro character member
      apply List.mem_rtakeWhile_imp (l := text)
      rw [split]
      exact List.mem_append_right first (List.mem_cons_of_mem digit member)
  · rintro ⟨before, digit, more, rfl, isDigit, continues⟩
    have run : ∀ character ∈ (digit :: more).reverse, continuesNumber character = true := by
      intro character member
      rcases List.mem_cons.mp (List.mem_reverse.mp member) with rfl | inside
      · exact continuesNumber_of_isDigit isDigit
      · exact continues character inside
    refine ⟨digit, ?_, isDigit⟩
    rw [List.rtakeWhile, List.reverse_append, List.takeWhile_append_of_pos run, List.reverse_append,
      List.reverse_reverse]
    exact List.mem_append_right _ List.mem_cons_self

private theorem endsInNumber_append {text : List Char} (before : List Char)
    (ends : endsInNumber text = true) : endsInNumber (before ++ text) = true := by
  obtain ⟨first, digit, more, rfl, isDigit, continues⟩ := endsInNumber_iff.mp ends
  exact endsInNumber_iff.mpr ⟨before ++ first, digit, more, (List.append_assoc ..).symm, isDigit, continues⟩

private theorem endsInNumber_of_isLiteral {literal : String} (shape : isLiteral literal = true) :
    endsInNumber literal.toList = true := by
  obtain ⟨first, rest, letters, digit, continues⟩ := isLiteral_iff.mp shape
  exact endsInNumber_iff.mpr ⟨[], first, rest, letters, digit, continues⟩

/-- No number starts at a character that is no digit. -/
private theorem endsInNumber_of_cons {character : Char} {text : List Char}
    (other : character.isDigit = false)
    (ends : endsInNumber (character :: text) = true) : endsInNumber text = true := by
  obtain ⟨before, digit, more, split, isDigit, continues⟩ := endsInNumber_iff.mp ends
  cases before with
  | nil =>
    obtain ⟨rfl, _⟩ := List.cons_eq_cons.mp split
    rw [other] at isDigit
    cases isDigit
  | cons first before =>
    exact endsInNumber_iff.mpr ⟨before, digit, more, (List.cons.inj split).2, isDigit, continues⟩

/-- No number goes on behind a character that ends it. -/
private theorem endsInNumber_of_append {before text : List Char} (some : text ≠ [])
    (ended : ∀ character ∈ text.head?, continuesNumber character = false)
    (ends : endsInNumber (before ++ text) = true) : endsInNumber text = true := by
  obtain ⟨first, digit, more, split, isDigit, continues⟩ := endsInNumber_iff.mp ends
  rcases List.append_eq_append_iff.mp split with ⟨between, _, behind⟩ | ⟨between, _, across⟩
  · exact endsInNumber_iff.mpr ⟨between, digit, more, behind, isDigit, continues⟩
  · cases text with
    | nil => exact absurd rfl some
    | cons character text =>
      have stops := ended character rfl
      have inside : character ∈ digit :: more := across ▸ List.mem_append_right between List.mem_cons_self
      rcases List.mem_cons.mp inside with rfl | later
      · rw [continuesNumber_of_isDigit isDigit] at stops
        cases stops
      · rw [continues character later] at stops
        cases stops

/-! ## Two texts -/

/-- A text that does not go on with a number of the one before it is read by itself. -/
theorem Spells.append {firstTokens secondTokens : List Token} {first second : List Char}
    (firstSpells : Spells firstTokens first) (secondSpells : Spells secondTokens second)
    (apart : endsInNumber first = true → ∀ character ∈ second.head?, continuesNumber character = false) :
    Spells (firstTokens ++ secondTokens) (first ++ second) := by
  induction firstSpells with
  | nil => exact secondSpells
  | skipped digit symbol _ ih =>
    exact .skipped digit symbol (ih fun ends => apart (endsInNumber_append [_] ends))
  | symbol read _ ih => exact .symbol read (ih fun ends => apart (endsInNumber_append [_] ends))
  | @number literal tokens text shape ended _ ih =>
    have rest := ih fun ends => apart (endsInNumber_append literal.toList ends)
    rw [List.append_assoc]
    refine .number shape ?_ rest
    cases text with
    | nil => exact apart (by rw [List.append_nil]; exact endsInNumber_of_isLiteral shape)
    | cons character text => exact ended

private theorem isLiteral_append {literal : String} (shape : isLiteral literal = true) {run : List Char}
    (continues : ∀ character ∈ run, continuesNumber character = true) :
    isLiteral (literal ++ String.ofList run) = true := by
  obtain ⟨first, rest, letters, digit, inside⟩ := isLiteral_iff.mp shape
  refine isLiteral_iff.mpr ⟨first, rest ++ run, ?_, digit, ?_⟩
  · rw [String.toList_append, String.toList_ofList, letters, List.cons_append]
  · intro character member
    rcases List.mem_append.mp member with before | behind
    · exact inside character before
    · exact continues character behind

/-- A number at the end of a text takes the run that follows into its own literal. -/
theorem Spells.exists_last {tokens : List Token} {first : List Char} (spells : Spells tokens first)
    (ends : endsInNumber first = true) :
    ∃ before literal, tokens = before ++ [.number literal] ∧
      ∀ {later : List Token} {run rest : List Char}, Spells later rest →
        (∀ character ∈ run, continuesNumber character = true) →
        (∀ character ∈ rest.head?, continuesNumber character = false) →
        Spells (before ++ .number (literal ++ String.ofList run) :: later) (first ++ (run ++ rest)) := by
  induction spells with
  | nil => cases ends
  | skipped digit symbol _ ih =>
    obtain ⟨before, literal, rfl, continued⟩ := ih (endsInNumber_of_cons digit ends)
    exact ⟨before, literal, rfl, fun spells continues ended =>
      .skipped digit symbol (continued spells continues ended)⟩
  | @symbol token _ _ _ read _ ih =>
    obtain ⟨before, literal, rfl, continued⟩ :=
      ih (endsInNumber_of_cons (not_isDigit_of_ofSymbol? read) ends)
    exact ⟨token :: before, literal, rfl, fun spells continues ended =>
      .symbol read (continued spells continues ended)⟩
  | @number last tokens text shape ended rest ih =>
    cases text with
    | nil =>
      obtain rfl : tokens = [] := by rw [← ofChars_of_spells rest, ofChars]
      refine ⟨[], last, rfl, ?_⟩
      intro later run rest spells continues ended
      have number := Spells.number (isLiteral_append shape continues) ended spells
      simpa only [String.toList_append, String.toList_ofList, List.append_assoc, List.append_nil,
        List.nil_append] using number
    | cons character text =>
      obtain ⟨before, literal, rfl, continued⟩ :=
        ih (endsInNumber_of_append (List.cons_ne_nil character text) ended ends)
      refine ⟨.number last :: before, literal, rfl, ?_⟩
      intro later run rest spells continues restEnded
      rw [List.append_assoc]
      exact .number shape ended (continued spells continues restEnded)

/-- A literal is a digit with digits, points and slashes behind it. The texts of the tokens are the line
without some characters, none of them a digit, an operator or a parenthesis. A line in two parts has the
tokens of the one and then of the other, unless the first ends in a number and the second starts with a digit,
a point or a slash. A number at the end of the first part is its last token, and it takes in all such characters
at the start of the second. -/
theorem ofLine_append :
    (∀ line : String,
      (∀ literal, .number literal ∈ ofLine line → isLiteral literal = true) ∧
        (String.join ((ofLine line).map text)).toList.Sublist line.toList ∧
        (String.join ((ofLine line).map text)).toList.filter isSignificant =
          line.toList.filter isSignificant) ∧
    ∀ first second : String,
      (¬ (endsInNumber first.toList = true ∧
          ∃ character ∈ second.toList.head?, continuesNumber character = true) →
        ofLine (first ++ second) = ofLine first ++ ofLine second) ∧
      (endsInNumber first.toList = true →
        ∃ before literal, ofLine first = before ++ [.number literal] ∧
          ofLine (first ++ second) =
            before ++ .number (literal ++ String.ofList (second.toList.takeWhile continuesNumber)) ::
              ofLine (String.ofList (second.toList.dropWhile continuesNumber))) := by
  constructor
  · intro line
    have spells := spells_ofChars line.toList
    rw [String.toList_join, List.flatMap_map]
    exact ⟨fun literal member => isLiteral_of_spells spells literal (mem_literals_iff.mpr member),
      sublist_of_spells spells⟩
  · intro first second
    have firstSpells := spells_ofChars first.toList
    simp only [ofLine, String.toList_append, String.toList_ofList]
    constructor
    · intro apart
      apply ofChars_of_spells
      apply firstSpells.append (spells_ofChars second.toList)
      intro ends character starts
      rw [Bool.eq_false_iff]
      exact fun continues => apart ⟨ends, character, starts, continues⟩
    · intro ends
      obtain ⟨before, literal, last, continued⟩ := firstSpells.exists_last ends
      have continues : ∀ character ∈ second.toList.takeWhile continuesNumber,
          continuesNumber character = true := fun _ => List.mem_takeWhile_imp
      have spells := continued (spells_ofChars (second.toList.dropWhile continuesNumber)) continues
        (stop_dropWhile continuesNumber second.toList)
      rw [List.takeWhile_append_dropWhile] at spells
      exact ⟨before, literal, last, ofChars_of_spells spells⟩

/-- A cut through `4/1.5`, with an operator and a skipped point before it. -/
example : ofLine ".2-./4/1" = [.number "2", .operator .minus, .operator .divide, .number "4/1"] ∧
    ofLine (".2-./4/1" ++ ".5*3") =
      [.number "2", .operator .minus, .operator .divide, .number "4/1.5", .operator .times, .number "3"] := by
  cbv

end LineCalc.Token
