import LineCalc.Proofs.Cut
import LineCalc.Proofs.Expression.Loose
import LineCalc.Rpn.Conversion

/-!
# The order into which tokens are converted

Converting the tokens of a loose expression leaves only the operators of its last product and of its
last chain waiting, whatever waited before it began. So every list of tokens with balanced parentheses
is converted to the postorder of the loose expression that it spells, and any other list either fails
at a closing parenthesis or keeps an opening one in the result.
-/

set_option autoImplicit false

namespace LineCalc.Rpn.Conversion

/-! ## Single steps -/

/-- The latest item that waits stays when an operator of the precedence `level` or a higher one comes. -/
def Holds (level : Nat) (pending : List Pending) : Prop :=
  ∀ item ∈ pending.head?, ∀ next : Operator, level ≤ next.precedence → item.yieldsTo next = false

private theorem holds_nil (level : Nat) : Holds level [] := by
  intro item member
  cases member

private theorem holds_openParen (level : Nat) (outer : List Pending) :
    Holds level (.openParen :: outer) := by
  intro item member next _
  cases member
  rfl

private theorem holds_operator {operator : Operator} {level : Nat} (looser : operator.precedence < level)
    (outer : List Pending) : Holds level (.operator operator :: outer) := by
  intro item member next tighter
  cases member
  simp only [Pending.yieldsTo, decide_eq_false_iff_not]
  omega

private theorem Holds.mono {low high : Nat} {pending : List Pending} (held : Holds low pending)
    (above : low ≤ high) : Holds high pending :=
  fun item member next tighter => held item member next (Nat.le_trans above tighter)

/-- An operator releases the waiting items that yield to it, as far as the first that does not. -/
theorem step_operator (released : List Token) {waiting outer : List Pending} {operator : Operator}
    (yielding : ∀ item ∈ waiting, item.yieldsTo operator = true)
    (held : Holds operator.precedence outer) :
    step { released, pending := waiting ++ outer } (.operator operator) =
      .ok { released := release released waiting, pending := .operator operator :: outer } := by
  obtain ⟨taken, dropped⟩ :=
    cut_append yielding fun item member => held item member operator (Nat.le_refl _)
  simp only [step, taken, dropped]

/-- A closing parenthesis releases all that waits inside the last open one. -/
theorem step_closeParen (released : List Token) (outer : List Pending) {waiting : List Pending}
    (inside : Pending.openParen ∉ waiting) :
    step { released, pending := waiting ++ .openParen :: outer } .closeParen =
      .ok { released := release released waiting, pending := outer } := by
  obtain ⟨taken, dropped⟩ := cut_separator inside outer
  simp only [step, taken, dropped]

theorem step_closeParen_unmatched (released : List Token) {waiting : List Pending}
    (inside : Pending.openParen ∉ waiting) :
    step { released, pending := waiting } .closeParen = .error .unmatchedClose := by
  obtain ⟨_, dropped⟩ := cut_of_not_mem inside
  simp only [step, dropped]

/-- What a step can do with a token. An operator releases what yields to it, as far as the first item that
does not, and a closing parenthesis releases all that waits inside the last open one. -/
inductive Steps (state : Conversion) : Token → Conversion → Prop where
  | number (literal : String) :
      Steps state (.number literal) { state with released := .number literal :: state.released }
  | operator {operator : Operator} {leaving staying : List Pending}
      (waits : leaving ++ staying = state.pending)
      (yielding : ∀ item ∈ leaving, item.yieldsTo operator = true)
      (held : ∀ item ∈ staying.head?, item.yieldsTo operator = false) :
      Steps state (.operator operator) {
        released := release state.released leaving
        pending := .operator operator :: staying }
  | openParen : Steps state .openParen { state with pending := .openParen :: state.pending }
  | closeParen {leaving outside : List Pending}
      (waits : leaving ++ .openParen :: outside = state.pending) (inside : .openParen ∉ leaving) :
      Steps state .closeParen { released := release state.released leaving, pending := outside }

theorem steps_of_step {state next : Conversion} {token : Token} (stepped : state.step token = .ok next) :
    Steps state token next := by
  cases token with
  | number literal =>
    cases stepped
    exact .number literal
  | operator operator =>
    cases stepped
    exact .operator List.takeWhile_append_dropWhile (fun item => List.mem_takeWhile_imp)
      (stop_dropWhile _ state.pending)
  | openParen =>
    cases stepped
    exact .openParen
  | closeParen =>
    obtain ⟨released, pending⟩ := state
    by_cases opened : Pending.openParen ∈ pending
    · obtain ⟨leaving, outside, rfl, inside⟩ := List.eq_append_cons_of_mem opened
      rw [step_closeParen released outside inside] at stepped
      cases stepped
      exact .closeParen rfl inside
    · rw [step_closeParen_unmatched released opened] at stepped
      cases stepped

theorem openParen_not_mem_of_yielding {operator : Operator} {leaving : List Pending}
    (yielding : ∀ item ∈ leaving, item.yieldsTo operator = true) : Pending.openParen ∉ leaving := by
  intro member
  cases yielding _ member

theorem run_append (state : Conversion) (before after : List Token) :
    state.run (before ++ after) = state.run before >>= fun next => next.run after := by
  simp only [run, List.foldlM_append]

theorem run_append_of_ok {state next : Conversion} {before : List Token}
    (ran : state.run before = .ok next) (after : List Token) :
    state.run (before ++ after) = next.run after := by
  rw [run_append, ran]
  rfl

theorem run_cons_of_ok {state next : Conversion} {token : Token}
    (stepped : state.step token = .ok next) (after : List Token) :
    state.run (token :: after) = next.run after := by
  simp only [run, List.foldlM_cons, stepped]
  rfl

@[simp] theorem run_nil (state : Conversion) : state.run [] = .ok state := rfl

end LineCalc.Rpn.Conversion

namespace LineCalc.Loose

open Rpn (Pending Conversion)

/-! ## What waits at the end of a loose expression -/

/-- The operators that wait at the end of a product, the latest first. -/
def Product.waiting : Product → List Pending
  | .single _ => []
  | .chain _ operator _ _ => [.operator operator]

def Sum.waiting : Sum → List Pending
  | .single product => product.waiting
  | .chain _ operator _ right => right.waiting ++ [.operator operator]

/-- The tokens that are released at the end of a product. -/
def Product.released : Product → List Token
  | .single run => run.postorder
  | .chain left _ _ right => left.postorder ++ right.postorder

def Sum.released : Sum → List Token
  | .single product => product.released
  | .chain left _ _ right => left.postorder ++ right.released

private theorem Product.released_append_waiting (product : Product) :
    product.released ++ product.waiting.map Pending.token = product.postorder := by
  cases product with
  | single run => simp only [released, waiting, postorder, List.map_nil, List.append_nil]
  | chain left operator multiplicative right => rfl

private theorem Sum.released_append_waiting (sum : Sum) :
    sum.released ++ sum.waiting.map Pending.token = sum.postorder := by
  cases sum with
  | single product => exact product.released_append_waiting
  | chain left operator additive right =>
    simp only [released, waiting, postorder, List.map_append, List.append_assoc]
    rw [← List.append_assoc right.released, right.released_append_waiting]
    rfl

private theorem Product.precedence_of_mem_waiting {product : Product} {item : Pending}
    (member : item ∈ product.waiting) :
    ∃ operator : Operator, item = .operator operator ∧ operator.precedence = 2 := by
  cases product with
  | single run => cases member
  | chain left operator multiplicative right =>
    exact ⟨operator, List.mem_singleton.mp member, multiplicative.precedence⟩

private theorem Sum.operator_of_mem_waiting {sum : Sum} {item : Pending} (member : item ∈ sum.waiting) :
    ∃ operator : Operator, item = .operator operator ∧ 1 ≤ operator.precedence := by
  cases sum with
  | single product =>
    obtain ⟨operator, same, _⟩ := Product.precedence_of_mem_waiting member
    exact ⟨operator, same, operator.precedence_pos⟩
  | chain left operator additive right =>
    rcases List.mem_append.mp member with inside | last
    · obtain ⟨operator, same, _⟩ := Product.precedence_of_mem_waiting inside
      exact ⟨operator, same, operator.precedence_pos⟩
    · exact ⟨operator, List.mem_singleton.mp last, operator.precedence_pos⟩

private theorem Sum.openParen_not_mem_waiting (sum : Sum) : Pending.openParen ∉ sum.waiting := by
  intro member
  obtain ⟨operator, same, _⟩ := operator_of_mem_waiting member
  cases same

/-- Releasing what waits at the end of a sum completes its postorder. -/
theorem Sum.release_waiting (sum : Sum) (before : List Token) :
    Conversion.release (sum.released.reverse ++ before) sum.waiting =
      sum.postorder.reverse ++ before := by
  rw [Conversion.release, ← List.append_assoc, ← List.reverse_append, released_append_waiting]

private theorem Product.release_waiting (product : Product) (before : List Token) :
    Conversion.release (product.released.reverse ++ before) product.waiting =
      product.postorder.reverse ++ before := by
  rw [Conversion.release, ← List.append_assoc, ← List.reverse_append, released_append_waiting]

/-! ## Converting loose expressions -/

mutual

theorem Sum.run_tokens (sum : Sum) (before : List Token) {outer : List Pending}
    (held : Conversion.Holds 1 outer) :
    Conversion.run { released := before, pending := outer } sum.tokens =
      .ok { released := sum.released.reverse ++ before, pending := sum.waiting ++ outer } := by
  cases sum with
  | single product =>
    exact product.run_tokens before (held.mono (by decide))
  | chain left operator additive right =>
    have lowest := additive.precedence
    have yielding : ∀ item ∈ left.waiting, item.yieldsTo operator = true := by
      intro item member
      obtain ⟨waiting, rfl, positive⟩ := Sum.operator_of_mem_waiting member
      simp only [Pending.yieldsTo, decide_eq_true_eq]
      omega
    have stepped := Conversion.step_operator (left.released.reverse ++ before) yielding (lowest ▸ held)
    rw [left.release_waiting] at stepped
    rw [Sum.tokens, Conversion.run_append_of_ok (left.run_tokens before held),
      Conversion.run_cons_of_ok stepped,
      right.run_tokens _ (Rpn.Conversion.holds_operator (by omega) outer)]
    simp only [Sum.released, Sum.waiting, List.reverse_append, List.append_assoc, List.cons_append,
      List.nil_append]

theorem Product.run_tokens (product : Product) (before : List Token) {outer : List Pending}
    (held : Conversion.Holds 2 outer) :
    Conversion.run { released := before, pending := outer } product.tokens =
      .ok { released := product.released.reverse ++ before, pending := product.waiting ++ outer } := by
  cases product with
  | single run => exact run.run_tokens before outer
  | chain left operator multiplicative right =>
    have highest := multiplicative.precedence
    have yielding : ∀ item ∈ left.waiting, item.yieldsTo operator = true := by
      intro item member
      obtain ⟨waiting, rfl, tight⟩ := Product.precedence_of_mem_waiting member
      simp only [Pending.yieldsTo, decide_eq_true_eq]
      omega
    have stepped := Conversion.step_operator (left.released.reverse ++ before) yielding (highest ▸ held)
    rw [left.release_waiting] at stepped
    rw [Product.tokens, Conversion.run_append_of_ok (left.run_tokens before held),
      Conversion.run_cons_of_ok stepped, right.run_tokens]
    simp only [Product.released, Product.waiting, List.reverse_append, List.append_assoc,
      List.cons_append, List.nil_append]

theorem Run.run_tokens (run : Run) (before : List Token) (outer : List Pending) :
    Conversion.run { released := before, pending := outer } run.tokens =
      .ok { released := run.postorder.reverse ++ before, pending := outer } := by
  cases run with
  | empty => rfl
  | literal run literal =>
    rw [Run.tokens, Conversion.run_append_of_ok (run.run_tokens before outer),
      Conversion.run_cons_of_ok rfl, Conversion.run_nil]
    simp only [Run.postorder, List.reverse_append, List.reverse_singleton, List.cons_append,
      List.nil_append]
  | group run sum =>
    have closed := Conversion.step_closeParen (sum.released.reverse ++ (run.postorder.reverse ++ before))
      outer sum.openParen_not_mem_waiting
    rw [sum.release_waiting] at closed
    rw [Run.tokens, List.append_assoc, Conversion.run_append_of_ok (run.run_tokens before outer),
      List.cons_append, Conversion.run_cons_of_ok rfl,
      Conversion.run_append_of_ok (sum.run_tokens _ (Rpn.Conversion.holds_openParen 1 outer)),
      Conversion.run_cons_of_ok closed, Conversion.run_nil]
    simp only [Run.postorder, List.reverse_append, List.append_assoc]

end

/-! ## Converting any list of tokens -/

/-- What waits at the end of sums that each have a group open, of which the last comes first. -/
def openWaiting : List Sum → List Pending
  | [] => []
  | sum :: outer => .openParen :: (sum.waiting ++ openWaiting outer)

/-- What is released at the end of sums that each have a group open, of which the last comes first. -/
def openReleased : List Sum → List Token
  | [] => []
  | sum :: outer => openReleased outer ++ sum.released

/-- The state of the conversion after the tokens of an outline. -/
def Outline.conversion (outline : Outline) : Conversion where
  released := outline.current.released.reverse ++ (openReleased outline.enclosing).reverse
  pending := outline.current.waiting ++ openWaiting outline.enclosing

private theorem holds_openWaiting (level : Nat) (enclosing : List Sum) :
    Conversion.Holds level (openWaiting enclosing) := by
  cases enclosing with
  | nil => exact Rpn.Conversion.holds_nil level
  | cons sum outer => exact Rpn.Conversion.holds_openParen level _

theorem run_openTokens (enclosing : List Sum) :
    Conversion.start.run (openTokens enclosing) =
      .ok { released := (openReleased enclosing).reverse, pending := openWaiting enclosing } := by
  induction enclosing with
  | nil => rfl
  | cons sum outer ih =>
    rw [openTokens, List.append_assoc, Conversion.run_append_of_ok ih,
      Conversion.run_append_of_ok (sum.run_tokens _ (holds_openWaiting 1 outer)),
      Conversion.run_cons_of_ok rfl, Conversion.run_nil]
    simp only [openReleased, openWaiting, List.reverse_append]

theorem Outline.run_tokens (outline : Outline) :
    Conversion.start.run outline.tokens = .ok outline.conversion := by
  rw [Outline.tokens, Conversion.run_append_of_ok (run_openTokens outline.enclosing)]
  exact outline.current.run_tokens _ (holds_openWaiting 1 outline.enclosing)

theorem run_unmatched (sum : Sum) (rest : List Token) :
    Conversion.start.run (sum.tokens ++ .closeParen :: rest) = .error .unmatchedClose := by
  have ran : Conversion.start.run sum.tokens = .ok (Outline.conversion ⟨[], sum⟩) :=
    Outline.run_tokens ⟨[], sum⟩
  have closed := Conversion.step_closeParen_unmatched (Outline.conversion ⟨[], sum⟩).released
    sum.openParen_not_mem_waiting
  have waits : (Outline.conversion ⟨[], sum⟩).pending = sum.waiting := List.append_nil _
  rw [← waits] at closed
  rw [Conversion.run_append_of_ok ran, Conversion.run, List.foldlM_cons, closed]
  rfl

theorem ofTokens_eq_ok_iff {tokens rpn : List Token} :
    Rpn.ofTokens tokens = .ok rpn ↔
      ∃ outline : Outline, outline.tokens = tokens ∧ outline.conversion.finish = rpn := by
  constructor
  · intro converted
    rcases exists_outline_or_unmatched tokens with ⟨outline, rfl⟩ | ⟨sum, rest, rfl⟩
    · rw [Rpn.ofTokens, outline.run_tokens] at converted
      exact ⟨outline, rfl, Except.ok.inj converted⟩
    · rw [Rpn.ofTokens, run_unmatched] at converted
      cases converted
  · intro spelled
    obtain ⟨outline, rfl, rfl⟩ := spelled
    rw [Rpn.ofTokens, outline.run_tokens]
    rfl

private theorem Outline.finish_closed (sum : Sum) :
    (Outline.conversion ⟨[], sum⟩).finish = sum.postorder := by
  have released : Conversion.release (sum.released.reverse ++ []) sum.waiting =
      sum.postorder.reverse ++ [] := sum.release_waiting []
  simp only [Conversion.finish, Outline.conversion, openWaiting, openReleased, List.reverse_nil,
    List.append_nil] at released ⊢
  rw [released, List.reverse_reverse]

/-- The tokens of a loose expression are converted to its postorder. -/
theorem Sum.ofTokens_tokens (sum : Sum) : Rpn.ofTokens sum.tokens = .ok sum.postorder :=
  ofTokens_eq_ok_iff.mpr ⟨⟨[], sum⟩, rfl, Outline.finish_closed sum⟩

private theorem Outline.openParen_mem_finish {outline : Outline} (opened : outline.enclosing ≠ []) :
    Token.openParen ∈ outline.conversion.finish := by
  obtain ⟨enclosing, current⟩ := outline
  cases enclosing with
  | nil => exact absurd rfl opened
  | cons sum outer =>
    have waits : Pending.openParen ∈ (Outline.conversion ⟨sum :: outer, current⟩).pending := by
      simp only [Outline.conversion, openWaiting, List.mem_append, List.mem_cons, true_or, or_true]
    rw [Conversion.finish, List.mem_reverse, Conversion.release]
    exact List.mem_append_left _ (List.mem_reverse.mpr (List.mem_map.mpr ⟨_, waits, rfl⟩))

theorem exists_sum_of_ofTokens {tokens rpn : List Token} (converted : Rpn.ofTokens tokens = .ok rpn)
    (closed : Token.openParen ∉ rpn) :
    ∃ sum : Sum, sum.tokens = tokens ∧ sum.postorder = rpn := by
  obtain ⟨⟨enclosing, current⟩, rfl, rfl⟩ := ofTokens_eq_ok_iff.mp converted
  cases enclosing with
  | nil => exact ⟨current, rfl, (Outline.finish_closed current).symm⟩
  | cons sum outer => exact absurd (Outline.openParen_mem_finish (List.cons_ne_nil sum outer)) closed

end LineCalc.Loose
