import LineCalc.Proofs.Cut
import LineCalc.Proofs.Token.Counting
import LineCalc.Text.Blank
import LineCalc.Token.Lexer

/-!
# Spelling tokens

`Spells tokens text` states the rules by which a text is read, one rule for each kind of character, and
holds exactly of the tokens that the lexer finds. A `Rendering` is a text that is written from tokens,
with blanks between them where their writer likes, and one where two tokens would run into one.
-/

set_option autoImplicit false

namespace LineCalc.Token

/-- A literal is a digit and then any number of digits, points and slashes. -/
def isLiteral (literal : String) : Bool :=
  match literal.toList with
  | [] => false
  | first :: rest =>
    first.isDigit && rest.all fun character =>
      character.isDigit || character == '.' || character == '/'

theorem isLiteral_iff {literal : String} :
    isLiteral literal = true ↔ ∃ first rest, literal.toList = first :: rest ∧
      first.isDigit = true ∧ ∀ character ∈ rest, continuesNumber character = true := by
  unfold isLiteral
  constructor
  · intro shape
    cases letters : literal.toList with
    | nil => simp [letters] at shape
    | cons first rest =>
      rw [letters] at shape
      obtain ⟨digit, continues⟩ := Bool.and_eq_true_iff.mp shape
      exact ⟨first, rest, rfl, digit, List.all_eq_true.mp continues⟩
  · intro shape
    obtain ⟨first, rest, letters, digit, continues⟩ := shape
    rw [letters]
    exact Bool.and_eq_true_iff.mpr ⟨digit, List.all_eq_true.mpr continues⟩

/-! ## Characters -/

theorem continuesNumber_of_isDigit {character : Char} (digit : character.isDigit = true) :
    continuesNumber character = true := by
  simp [continuesNumber, digit]

theorem continuesNumber_of_isLiteral {literal : String} (shape : isLiteral literal = true)
    {character : Char} (member : character ∈ literal.toList) : continuesNumber character = true := by
  obtain ⟨first, rest, letters, digit, continues⟩ := isLiteral_iff.mp shape
  rw [letters] at member
  rcases List.mem_cons.mp member with rfl | member
  · exact continuesNumber_of_isDigit digit
  · exact continues character member

/-- The characters that are tokens by themselves. -/
def symbols : List Char :=
  ['(', ')', '+', '-', '*', '/', '%']

theorem mem_symbols_of_ofSymbol? {character : Char} {token : Token}
    (read : ofSymbol? character = some token) : character ∈ symbols := by
  unfold ofSymbol? at read
  split at read
  · decide
  · decide
  · obtain ⟨op, found, same⟩ := Option.map_eq_some_iff.mp read
    rw [← Operator.symbol_of_ofSymbol? found]
    cases op <;> decide

/-- What holds of all symbols holds of what is read as one. -/
private theorem property_of_ofSymbol? {property : Char → Bool} (each : symbols.all property = true)
    {character : Char} {token : Token} (read : ofSymbol? character = some token) :
    property character = true :=
  List.all_eq_true.mp each character (mem_symbols_of_ofSymbol? read)

theorem not_isDigit_of_ofSymbol? {character : Char} {token : Token}
    (read : ofSymbol? character = some token) : character.isDigit = false := by
  have each : symbols.all (fun symbol => !symbol.isDigit) = true := by decide
  simpa using property_of_ofSymbol? each read

theorem text_of_ofSymbol? {character : Char} {token : Token}
    (read : ofSymbol? character = some token) : token.text.toList = [character] := by
  unfold ofSymbol? at read
  split at read
  · cases read
    rfl
  · cases read
    rfl
  · obtain ⟨op, found, rfl⟩ := Option.map_eq_some_iff.mp read
    rw [← Operator.symbol_of_ofSymbol? found]
    cases op <;> rfl

private theorem literals_cons_of_ofSymbol? {character : Char} {token : Token}
    (read : ofSymbol? character = some token) (tokens : List Token) :
    literals (token :: tokens) = literals tokens := by
  cases token with
  | number literal =>
    unfold ofSymbol? at read
    split at read <;> simp at read
  | operator op => rfl
  | openParen => rfl
  | closeParen => rfl

/-- Among the symbols only the slash continues a number. -/
theorem continuesNumber_of_ofSymbol? {character : Char} {token : Token}
    (read : ofSymbol? character = some token) :
    continuesNumber character = false ∨ token = .operator .divide := by
  have each : symbols.all (fun symbol => !continuesNumber symbol || symbol == '/') = true := by decide
  have either := property_of_ofSymbol? each read
  simp only [Bool.or_eq_true, Bool.not_eq_true', beq_iff_eq] at either
  rcases either with ends | rfl
  · exact .inl ends
  · exact .inr (Option.some_inj.mp read).symm

theorem number_or_ofSymbol? (token : Token) :
    (∃ literal, token = .number literal) ∨
      ∃ character, token.text.toList = [character] ∧ ofSymbol? character = some token := by
  cases token with
  | number literal => exact .inl ⟨literal, rfl⟩
  | operator op => exact .inr ⟨op.symbol, by cases op <;> rfl, by cases op <;> rfl⟩
  | openParen => exact .inr ⟨'(', rfl, rfl⟩
  | closeParen => exact .inr ⟨')', rfl, rfl⟩

theorem toNat_of_isBlank {character : Char} (blank : Text.isBlank character = true) :
    character.toNat ≤ 32 ∨ 133 ≤ character.toNat := by
  simp only [Text.isBlank, Text.blankRanges, List.any_cons, List.any_nil, Bool.or_eq_true,
    Bool.and_eq_true, decide_eq_true_eq, Bool.false_eq_true, or_false] at blank
  omega

theorem toNat_of_continuesNumber {character : Char} (continues : continuesNumber character = true) :
    46 ≤ character.toNat ∧ character.toNat ≤ 57 := by
  simp only [continuesNumber, Bool.or_eq_true, beq_iff_eq] at continues
  rcases continues with (digit | rfl) | rfl
  · simp only [Char.isDigit, Bool.and_eq_true, decide_eq_true_eq, ge_iff_le,
      UInt32.le_iff_toNat_le] at digit
    exact ⟨Nat.le_trans (by decide) digit.1, digit.2⟩
  · decide
  · decide

theorem continuesNumber_of_isBlank {character : Char} (blank : Text.isBlank character = true) :
    continuesNumber character = false := by
  cases continues : continuesNumber character with
  | false => rfl
  | true =>
    have within := toNat_of_continuesNumber continues
    have outside := toNat_of_isBlank blank
    omega

private theorem ofSymbol?_of_isBlank {character : Char} (blank : Text.isBlank character = true) :
    ofSymbol? character = none := by
  cases read : ofSymbol? character with
  | none => rfl
  | some token =>
    have each : symbols.all (fun symbol => !Text.isBlank symbol) = true := by decide
    exact absurd (property_of_ofSymbol? each read) (by simp [blank])

/-! ## What a text spells -/

/-- The rules by which a text is read. A number ends where its text cannot be continued. -/
inductive Spells : List Token → List Char → Prop where
  | nil : Spells [] []
  | skipped {tokens : List Token} {character : Char} {text : List Char}
      (digit : character.isDigit = false) (symbol : ofSymbol? character = none)
      (rest : Spells tokens text) : Spells tokens (character :: text)
  | symbol {token : Token} {tokens : List Token} {character : Char} {text : List Char}
      (read : ofSymbol? character = some token) (rest : Spells tokens text) :
      Spells (token :: tokens) (character :: text)
  | number {literal : String} {tokens : List Token} {text : List Char}
      (shape : isLiteral literal = true)
      (ended : ∀ character ∈ text.head?, continuesNumber character = false)
      (rest : Spells tokens text) :
      Spells (.number literal :: tokens) (literal.toList ++ text)

theorem ofChars_number {literal : String} (shape : isLiteral literal = true) {text : List Char}
    (ended : ∀ character ∈ text.head?, continuesNumber character = false) :
    ofChars (literal.toList ++ text) = .number literal :: ofChars text := by
  obtain ⟨first, rest, letters, digit, continues⟩ := isLiteral_iff.mp shape
  obtain ⟨run, left⟩ := cut_append continues ended
  rw [letters, List.cons_append, ofChars, if_pos digit, run, left, ← letters, String.ofList_toList]

theorem ofChars_of_spells {tokens : List Token} {text : List Char} (spells : Spells tokens text) :
    ofChars text = tokens := by
  induction spells with
  | nil => rw [ofChars]
  | skipped digit symbol _ ih =>
    rw [ofChars, symbol, ih]
    simp [digit]
  | symbol read _ ih =>
    rw [ofChars, read, ih]
    simp [not_isDigit_of_ofSymbol? read]
  | number shape ended _ ih => rw [ofChars_number shape ended, ih]

theorem spells_ofChars (text : List Char) : Spells (ofChars text) text := by
  induction text using ofChars.induct with
  | case1 =>
    rw [ofChars]
    exact .nil
  | case2 character rest digit ih =>
    rw [ofChars, if_pos digit]
    have split : character :: rest =
        (String.ofList (character :: rest.takeWhile continuesNumber)).toList ++
          rest.dropWhile continuesNumber := by
      rw [String.toList_ofList, List.cons_append, List.takeWhile_append_dropWhile]
    have shape : isLiteral (String.ofList (character :: rest.takeWhile continuesNumber)) = true :=
      isLiteral_iff.mpr ⟨character, _, String.toList_ofList, digit,
        List.all_eq_true.mp List.all_takeWhile⟩
    conv => rhs; rw [split]
    exact .number shape (stop_dropWhile continuesNumber rest) ih
  | case3 character rest digit token read ih =>
    rw [ofChars, if_neg digit, read]
    exact .symbol read ih
  | case4 character rest digit none ih =>
    rw [ofChars, if_neg digit, none]
    exact .skipped (Bool.eq_false_iff.mpr digit) none ih

theorem isLiteral_of_spells {tokens : List Token} {text : List Char} (spells : Spells tokens text) :
    ∀ literal ∈ literals tokens, isLiteral literal = true := by
  induction spells with
  | nil => exact nofun
  | skipped _ _ _ ih => exact ih
  | symbol read _ ih =>
    rw [literals_cons_of_ofSymbol? read]
    exact ih
  | number shape _ _ ih =>
    intro literal member
    rcases List.mem_cons.mp member with rfl | member
    · exact shape
    · exact ih literal member

/-- A slash is never skipped, and never made up. -/
theorem slash_mem_iff_of_spells {tokens : List Token} {text : List Char}
    (spells : Spells tokens text) :
    '/' ∈ text ↔ ∃ token ∈ tokens, '/' ∈ token.text.toList := by
  induction spells with
  | nil => simp
  | @skipped tokens character text digit symbol _ ih =>
    have other : '/' ≠ character := by
      intro same
      subst same
      exact absurd symbol (by decide)
    simp only [List.mem_cons, other, false_or, ih]
  | symbol read _ ih => simp only [List.mem_cons, exists_eq_or_imp, text_of_ofSymbol? read,
      List.not_mem_nil, or_false, ih]
  | number _ _ _ ih => simp only [List.mem_append, List.mem_cons, exists_eq_or_imp, Token.text, ih]

/-! ## Texts that are written from tokens -/

/-- Whether the text of a token, with that of the next token right behind it, is read otherwise than
with a blank between the two. -/
def absorbs : Token → Option Token → Bool
  | .number _, some (.number _) => true
  | .number _, some (.operator .divide) => true
  | _, _ => false

/-- A text with the texts of the tokens in their order, any blanks around them, and at least one blank
where a token would absorb the next. -/
inductive Rendering : List Token → List Char → Prop where
  | nil : Rendering [] []
  | blank {tokens : List Token} {character : Char} {text : List Char}
      (blank : Text.isBlank character = true) (rest : Rendering tokens text) :
      Rendering tokens (character :: text)
  | token {token : Token} {tokens : List Token} {text : List Char}
      (apart : absorbs token tokens.head? = true →
        ∃ character ∈ text.head?, Text.isBlank character = true)
      (rest : Rendering tokens text) : Rendering (token :: tokens) (token.text.toList ++ text)

private theorem Rendering.ended {tokens : List Token} {text : List Char} (rendering : Rendering tokens text)
    (shapes : ∀ literal ∈ literals tokens, isLiteral literal = true) (literal : String)
    (apart : absorbs (.number literal) tokens.head? = true →
      ∃ character ∈ text.head?, Text.isBlank character = true) :
    ∀ character ∈ text.head?, continuesNumber character = false := by
  cases rendering with
  | nil => exact nofun
  | blank blank _ =>
    intro character found
    obtain rfl := Option.some_inj.mp found
    exact continuesNumber_of_isBlank blank
  | @token token tokens text _ _ =>
    rcases number_or_ofSymbol? token with ⟨other, rfl⟩ | ⟨character, letter, read⟩
    · obtain ⟨character, found, blank⟩ := apart rfl
      intro other same
      obtain rfl := Option.some_inj.mp (found.symm.trans same)
      exact continuesNumber_of_isBlank blank
    · rw [letter] at apart ⊢
      intro other found
      obtain rfl := Option.some_inj.mp found
      rcases continuesNumber_of_ofSymbol? read with ends | rfl
      · exact ends
      · obtain ⟨other, same, blank⟩ := apart rfl
        obtain rfl := Option.some_inj.mp same
        exact continuesNumber_of_isBlank blank

theorem Rendering.spells {tokens : List Token} {text : List Char} (rendering : Rendering tokens text)
    (shapes : ∀ literal ∈ literals tokens, isLiteral literal = true) : Spells tokens text := by
  induction rendering with
  | nil => exact .nil
  | blank blank _ ih =>
    have digit : ∀ character, Text.isBlank character = true → character.isDigit = false := by
      intro character blank
      have other := continuesNumber_of_isBlank blank
      simp only [continuesNumber, Bool.or_eq_false_iff] at other
      exact other.1.1
    exact .skipped (digit _ blank) (ofSymbol?_of_isBlank blank) (ih shapes)
  | @token token tokens text apart rest ih =>
    rcases number_or_ofSymbol? token with ⟨literal, rfl⟩ | ⟨character, letter, read⟩
    · have tail : ∀ literal ∈ literals tokens, isLiteral literal = true :=
        fun other member => shapes other (List.mem_cons_of_mem _ member)
      exact .number (shapes literal List.mem_cons_self) (rest.ended tail literal apart) (ih tail)
    · rw [letter]
      rw [literals_cons_of_ofSymbol? read] at shapes
      exact .symbol read (ih shapes)

theorem Rendering.ofChars_eq {tokens : List Token} {text : List Char}
    (rendering : Rendering tokens text)
    (shapes : ∀ literal ∈ literals tokens, isLiteral literal = true) : ofChars text = tokens :=
  ofChars_of_spells (rendering.spells shapes)

/-- The characters of a rendering that are no blanks are those of the tokens. -/
theorem Rendering.isBlank_or_mem {tokens : List Token} {text : List Char}
    (rendering : Rendering tokens text) {character : Char} (member : character ∈ text) :
    Text.isBlank character = true ∨ ∃ token ∈ tokens, character ∈ token.text.toList := by
  induction rendering with
  | nil => cases member
  | blank blank _ ih =>
    rcases List.mem_cons.mp member with rfl | member
    · exact .inl blank
    · exact ih member
  | @token token tokens text apart rest ih =>
    rcases List.mem_append.mp member with inside | behind
    · exact .inr ⟨token, List.mem_cons_self, inside⟩
    · rcases ih behind with blank | ⟨other, found, inside⟩
      · exact .inl blank
      · exact .inr ⟨other, List.mem_cons_of_mem _ found, inside⟩

/-- A rendering has no letters: its characters lie before the digit nine, or they are blanks. -/
theorem Rendering.toNat_of_mem {tokens : List Token} {text : List Char}
    (rendering : Rendering tokens text)
    (shapes : ∀ literal ∈ literals tokens, isLiteral literal = true) {character : Char}
    (member : character ∈ text) : character.toNat ≤ 57 ∨ 133 ≤ character.toNat := by
  rcases rendering.isBlank_or_mem member with blank | ⟨token, found, inside⟩
  · have bounds := toNat_of_isBlank blank
    omega
  · rcases number_or_ofSymbol? token with ⟨literal, rfl⟩ | ⟨symbol, letter, read⟩
    · have shape := shapes literal (mem_literals_iff.mpr found)
      have bounds := toNat_of_continuesNumber (continuesNumber_of_isLiteral shape inside)
      exact .inl bounds.2
    · have each : symbols.all (fun symbol => decide (symbol.toNat ≤ 57)) = true := by decide
      rw [letter] at inside
      obtain rfl := List.mem_singleton.mp inside
      exact .inl (of_decide_eq_true (property_of_ofSymbol? each read))

theorem toList_listText_singleton (token : Token) : (listText [token]).toList = token.text.toList := by
  simp [listText]

theorem toList_listText_cons_cons (token next : Token) (tokens : List Token) :
    (listText (token :: next :: tokens)).toList =
      token.text.toList ++ ' ' :: (listText (next :: tokens)).toList := by
  simp [listText, String.intercalate_cons_cons]

theorem rendering_listText (tokens : List Token) : Rendering tokens (listText tokens).toList := by
  induction tokens with
  | nil => exact .nil
  | cons token tokens ih =>
    cases tokens with
    | nil =>
      rw [toList_listText_singleton, ← List.append_nil token.text.toList]
      exact .token (by cases token <;> exact nofun) .nil
    | cons next tokens =>
      rw [toList_listText_cons_cons]
      exact .token (fun _ => ⟨' ', rfl, by decide⟩) (.blank (by decide) ih)

end LineCalc.Token
