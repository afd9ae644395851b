import LineCalc.Proofs.Decimal.Numeral

/-!
# Runs of digits with a point

A run is made of digits and at most one point, and it is the text of a numeral when it has a digit. The reader of
starts takes the longest run at the start of a text, and reads it as the reader of whole texts does.
-/

set_option autoImplicit false

namespace LineCalc.Decimal

private theorem isDigit_of_continuesNumeral {character : Char}
    (continues : continuesNumeral character = true) (other : character ≠ '.') :
    character.isDigit = true := by
  simpa [continuesNumeral, other] using continues

private theorem count_point_of_digits {digits : List Char}
    (each : ∀ character ∈ digits, character.isDigit = true) : digits.count '.' = 0 :=
  List.count_eq_zero.mpr (point_not_mem_of_digits each)

private theorem sublist_pointed (whole fraction : List Char) :
    (whole ++ fraction).Sublist (whole ++ '.' :: fraction) :=
  (List.sublist_cons_self '.' fraction).append_left whole

/-! ## Runs and numerals -/

/-- Digits and at most one point. -/
structure IsRun (text : List Char) : Prop where
  continues : ∀ character ∈ text, continuesNumeral character = true
  points : text.count '.' ≤ 1

private theorem IsRun.of_isPrefix {first text : List Char} (run : IsRun text) (start : first <+: text) :
    IsRun first where
  continues := fun character member => run.continues character (start.subset member)
  points := (start.sublist.count_le '.').trans run.points

private theorem isRun_digits {digits : List Char} (each : ∀ character ∈ digits, character.isDigit = true) :
    IsRun digits where
  continues := fun character member => by rw [continuesNumeral, each character member, Bool.true_or]
  points := by rw [count_point_of_digits each]; exact Nat.zero_le 1

private theorem isRun_pointed {whole fraction : List Char}
    (wholeDigits : ∀ character ∈ whole, character.isDigit = true)
    (fractionDigits : ∀ character ∈ fraction, character.isDigit = true) :
    IsRun (whole ++ '.' :: fraction) where
  continues := by
    intro character member
    rcases List.mem_append.mp member with before | behind
    · exact (isRun_digits wholeDigits).continues character before
    · rcases List.mem_cons.mp behind with rfl | inside
      · decide
      · exact (isRun_digits fractionDigits).continues character inside
  points := by
    rw [List.count_append, List.count_cons_self, count_point_of_digits wholeDigits,
      count_point_of_digits fractionDigits]

/-- The texts of numerals, by their characters. -/
structure IsNumeral (text : List Char) : Prop where
  run : IsRun text
  filled : ∃ digit ∈ text, digit.isDigit = true

theorem Numeral.isNumeral_text (numeral : Numeral) : IsNumeral numeral.text := by
  obtain ⟨whole, fraction?, digits, filled⟩ := numeral
  obtain ⟨digit, member⟩ := List.exists_mem_of_ne_nil _ filled
  cases fraction? with
  | none =>
    rw [Option.getD_none, List.append_nil] at digits member
    exact ⟨isRun_digits digits, digit, member, digits digit member⟩
  | some fraction =>
    have run : IsRun (whole ++ '.' :: fraction) :=
      isRun_pointed (fun character inside => digits character (List.mem_append_left _ inside))
        fun character inside => digits character (List.mem_append_right whole inside)
    exact ⟨run, digit, (sublist_pointed whole fraction).subset member, digits digit member⟩

theorem isNumeral_iff {text : List Char} :
    IsNumeral text ↔ ∃ numeral : Numeral, numeral.text = text := by
  constructor
  · rintro ⟨run, digit, member, isDigit⟩
    have apart : digit ≠ '.' := fun same => absurd (same ▸ isDigit) (by decide)
    by_cases pointed : '.' ∈ text
    · obtain ⟨whole, fraction, rfl⟩ := List.append_of_mem pointed
      have points := run.points
      rw [List.count_append, List.count_cons_self] at points
      have unpointed : '.' ∉ whole ++ fraction := by
        rw [← List.count_eq_zero, List.count_append]
        omega
      have inside : digit ∈ whole ++ fraction := by
        simpa only [List.mem_append, List.mem_cons, apart, false_or] using member
      refine ⟨⟨whole, some fraction, ?_, List.ne_nil_of_mem inside⟩, rfl⟩
      intro character found
      have within := (sublist_pointed whole fraction).subset found
      exact isDigit_of_continuesNumeral (run.continues character within)
        fun same => unpointed (same ▸ found)
    · have digits : ∀ character ∈ text, character.isDigit = true := fun character found =>
        isDigit_of_continuesNumeral (run.continues character found) fun same => pointed (same ▸ found)
      refine ⟨⟨text, none, ?_, ?_⟩, rfl⟩
      · rwa [Option.getD_none, List.append_nil]
      · rw [Option.getD_none, List.append_nil]
        exact List.ne_nil_of_mem member
  · rintro ⟨numeral, rfl⟩
    exact numeral.isNumeral_text

/-! ## The longest run -/

/-- The longest run at the start of a text. -/
structure IsLongestRun (text run : List Char) : Prop where
  start : run <+: text
  isRun : IsRun run
  longest : ∀ other, other <+: text → IsRun other → other.length ≤ run.length

theorem IsLongestRun.unique {text first second : List Char} (left : IsLongestRun text first)
    (right : IsLongestRun text second) : first = second := by
  have start : first <+: second :=
    List.prefix_of_prefix_length_le left.start right.start (right.longest first left.start left.isRun)
  exact start.eq_of_length_le (left.longest second right.start right.isRun)

/-- A run is the longest at the start of a text when the next character cannot be added to it. -/
theorem isLongestRun_of_stop {run rest : List Char} (isRun : IsRun run)
    (stop : ∀ character ∈ rest.head?, ¬ IsRun (run ++ [character])) : IsLongestRun (run ++ rest) run where
  start := List.prefix_append run rest
  isRun := isRun
  longest := by
    intro other start otherRun
    by_contra longer
    obtain ⟨more, rfl⟩ :=
      List.prefix_of_prefix_length_le (List.prefix_append run rest) start (by omega)
    cases more with
    | nil => simp at longer
    | cons character more =>
      obtain ⟨left, same⟩ := (List.prefix_append_right_inj run).mp start
      have next : character ∈ rest.head? := by rw [← same, List.cons_append]; rfl
      have added : run ++ [character] <+: run ++ character :: more :=
        (List.prefix_append_right_inj run).mpr ⟨more, rfl⟩
      exact stop character next (otherRun.of_isPrefix added)

private theorem parse?_digits_eq {whole : List Char}
    (digits : ∀ character ∈ whole, character.isDigit = true) :
    parse? whole = if whole.isEmpty then none else some (ofDigits whole []) := by
  cases whole with
  | nil => rfl
  | cons first rest => exact parse?_digits digits (List.cons_ne_nil first rest)

private theorem parse?_pointed_eq {whole fraction : List Char}
    (digits : ∀ character ∈ whole ++ fraction, character.isDigit = true) :
    parse? (whole ++ '.' :: fraction) =
      if (whole ++ fraction).isEmpty then none else some (ofDigits whole fraction) := by
  by_cases empty : whole ++ fraction = []
  · obtain ⟨rfl, rfl⟩ := List.append_eq_nil_iff.mp empty
    rfl
  · rw [parse?_pointed digits empty, if_neg (by simpa only [List.isEmpty_iff] using empty)]

private theorem scan?_of_point {text afterPoint : List Char}
    (behind : text.dropWhile Char.isDigit = '.' :: afterPoint) :
    scan? text = (parse? (text.takeWhile Char.isDigit ++ '.' :: afterPoint.takeWhile Char.isDigit)).map
      fun value => (value, afterPoint.dropWhile Char.isDigit) := by
  have digits : ∀ character ∈ text.takeWhile Char.isDigit ++ afterPoint.takeWhile Char.isDigit,
      character.isDigit = true := by
    intro character member
    rcases List.mem_append.mp member with before | after
    · exact List.mem_takeWhile_imp before
    · exact List.mem_takeWhile_imp after
  rw [parse?_pointed_eq digits]
  simp only [scan?, behind]
  split <;> rfl

private theorem scan?_of_no_point {text : List Char}
    (unpointed : ∀ afterPoint, text.dropWhile Char.isDigit ≠ '.' :: afterPoint) :
    scan? text = (parse? (text.takeWhile Char.isDigit)).map
      fun value => (value, text.dropWhile Char.isDigit) := by
  rw [parse?_digits_eq fun _ => List.mem_takeWhile_imp]
  simp only [scan?, List.append_nil]
  split <;> rfl

/-- The reader of starts reads the longest run as the reader of whole texts does. The run stops where neither a
digit nor its first point follows. -/
theorem exists_longest_run (text : List Char) :
    ∃ run rest, run ++ rest = text ∧ IsLongestRun text run ∧
      scan? text = (parse? run).map fun value => (value, rest) := by
  have cut := List.takeWhile_append_dropWhile (p := Char.isDigit) (l := text)
  have wholeDigits : ∀ character ∈ text.takeWhile Char.isDigit, character.isDigit = true :=
    fun _ => List.mem_takeWhile_imp
  by_cases pointed : ∃ afterPoint, text.dropWhile Char.isDigit = '.' :: afterPoint
  · obtain ⟨afterPoint, behind⟩ := pointed
    have fractionDigits : ∀ character ∈ afterPoint.takeWhile Char.isDigit, character.isDigit = true :=
      fun _ => List.mem_takeWhile_imp
    have split : (text.takeWhile Char.isDigit ++ '.' :: afterPoint.takeWhile Char.isDigit) ++
        afterPoint.dropWhile Char.isDigit = text := by
      rw [List.append_assoc, List.cons_append, List.takeWhile_append_dropWhile, ← behind, cut]
    have longest : IsLongestRun ((text.takeWhile Char.isDigit ++ '.' :: afterPoint.takeWhile Char.isDigit) ++
        afterPoint.dropWhile Char.isDigit)
        (text.takeWhile Char.isDigit ++ '.' :: afterPoint.takeWhile Char.isDigit) := by
      refine isLongestRun_of_stop (isRun_pointed wholeDigits fractionDigits) ?_
      intro character next longer
      have stops := stop_dropWhile Char.isDigit afterPoint character next
      have points := longer.points
      have continues := longer.continues character (List.mem_append_right _ List.mem_cons_self)
      obtain rfl : character = '.' := by simpa [continuesNumeral, stops] using continues
      simp only [List.count_append, List.count_cons_self] at points
      omega
    rw [split] at longest
    exact ⟨_, _, split, longest, scan?_of_point behind⟩
  · have unpointed : ∀ afterPoint, text.dropWhile Char.isDigit ≠ '.' :: afterPoint :=
      fun afterPoint behind => pointed ⟨afterPoint, behind⟩
    have longest : IsLongestRun (text.takeWhile Char.isDigit ++ text.dropWhile Char.isDigit)
        (text.takeWhile Char.isDigit) := by
      refine isLongestRun_of_stop (isRun_digits wholeDigits) ?_
      intro character next longer
      have stops := stop_dropWhile Char.isDigit text character next
      have continues := longer.continues character (List.mem_append_right _ List.mem_cons_self)
      obtain rfl : character = '.' := by simpa [continuesNumeral, stops] using continues
      obtain ⟨afterPoint, behind⟩ := List.head?_eq_some_iff.mp next
      exact unpointed afterPoint behind
    rw [cut] at longest
    exact ⟨_, _, cut, longest, scan?_of_no_point unpointed⟩

/-- A run is no decimal exactly when it has no digit. -/
theorem IsRun.parse?_eq_none_iff {text : List Char} (run : IsRun text) :
    parse? text = none ↔ ∀ character ∈ text, character.isDigit = false := by
  constructor
  · intro unread character member
    by_contra isDigit
    obtain ⟨numeral, rfl⟩ := isNumeral_iff.mp ⟨run, character, member, Bool.of_not_eq_false isDigit⟩
    rw [numeral.parse?_text] at unread
    cases unread
  · intro none
    cases read : parse? text with
    | none => rfl
    | some value =>
      obtain ⟨numeral, rfl, _⟩ := Numeral.exists_of_parse? read
      obtain ⟨digit, member, isDigit⟩ := numeral.isNumeral_text.filled
      rw [none digit member] at isDigit
      cases isDigit

theorem Numeral.value_congr {first second : Numeral} (same : first.text = second.text) :
    first.value = second.value := by
  have read := second.parse?_text
  rw [← same, first.parse?_text] at read
  exact Option.some_inj.mp read

/-- What is read at the start of a text is the longest numeral there. -/
theorem Numeral.exists_of_scan? {text rest : List Char} {value : Decimal}
    (read : scan? text = some (value, rest)) :
    ∃ numeral : Numeral, numeral.value = value ∧ numeral.text ++ rest = text ∧
      ∀ other : Numeral, other.text <+: text → other.text.length ≤ numeral.text.length := by
  obtain ⟨run, left, split, longest, scanned⟩ := exists_longest_run text
  rw [read, eq_comm, Option.map_eq_some_iff] at scanned
  obtain ⟨found, parsed, same⟩ := scanned
  obtain ⟨rfl, rfl⟩ := Prod.mk.inj same
  obtain ⟨numeral, rfl, valued⟩ := exists_of_parse? parsed
  exact ⟨numeral, valued, split, fun other start => longest.longest _ start other.isNumeral_text.run⟩

theorem Numeral.exists_scan? (numeral : Numeral) (rest : List Char) :
    ∃ value left, scan? (numeral.text ++ rest) = some (value, left) := by
  obtain ⟨run, left, split, longest, scanned⟩ := exists_longest_run (numeral.text ++ rest)
  have shape := numeral.isNumeral_text
  have start : numeral.text <+: run :=
    List.prefix_of_prefix_length_le (List.prefix_append _ _) ⟨left, split⟩
      (longest.longest _ (List.prefix_append _ _) shape.run)
  obtain ⟨digit, member, isDigit⟩ := shape.filled
  obtain ⟨found, rfl⟩ := isNumeral_iff.mp ⟨longest.isRun, digit, start.subset member, isDigit⟩
  rw [found.parse?_text] at scanned
  exact ⟨found.value, left, scanned⟩

/-- The two readers agree. What the reader of starts reads is what the reader of whole texts reads in the longest
run at the start of the text, with what follows the run as the rest, both as decimals and as binary64 values. Both
fail exactly when the run has no digit. -/
theorem scan?_outcome (text : List Char) :
    ∃ run, IsLongestRun text run ∧ (∀ other, IsLongestRun text other → other = run) ∧
      (∀ value rest, scan? text = some (value, rest) ↔ parse? run = some value ∧ text = run ++ rest) ∧
      (∀ number rest, (scan? text).map (Prod.map toFloat id) = some (number, rest) ↔
        (parse? run).map toFloat = some number ∧ text = run ++ rest) ∧
      (scan? text = none ↔ parse? run = none) ∧
      (parse? run = none ↔ ∀ character ∈ run, character.isDigit = false) := by
  obtain ⟨run, left, split, longest, scanned⟩ := exists_longest_run text
  have rests (rest : List Char) : left = rest ↔ text = run ++ rest := by
    rw [← split, List.append_right_inj]
  refine ⟨run, longest, fun other => (·.unique longest), ?_, ?_, ?_, longest.isRun.parse?_eq_none_iff⟩
  · intro value rest
    rw [scanned, ← rests]
    cases parse? run <;> simp
  · intro number rest
    rw [scanned, ← rests]
    cases parse? run <;> simp
  · rw [scanned, Option.map_eq_none_iff]

end LineCalc.Decimal
