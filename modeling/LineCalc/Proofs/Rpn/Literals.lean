import LineCalc.Proofs.Rpn.Errors

/-!
# Literals on the way to a value

Conversion keeps the literals of an expression, and an error that names one names the text of a token. So
nothing but what was read as a token gets into the result of a conversion or into an error.
-/

set_option autoImplicit false

namespace LineCalc.Rpn

/-! ## Conversion -/

theorem literals_map_token (items : List Pending) :
    Token.literals (items.map Pending.token) = [] := by
  induction items with
  | nil => rfl
  | cons item items ih => cases item <;> exact ih

private theorem literals_release (released : List Token) (items : List Pending) :
    Token.literals (Conversion.release released items).reverse =
      Token.literals released.reverse := by
  rw [Conversion.release, List.reverse_append, List.reverse_reverse, Token.literals_append,
    literals_map_token, List.append_nil]

theorem Conversion.literals_step {state next : Conversion} {token : Token}
    (stepped : state.step token = .ok next) :
    Token.literals next.released.reverse =
      Token.literals state.released.reverse ++ Token.literals [token] := by
  cases steps_of_step stepped with
  | number literal => rw [List.reverse_cons, Token.literals_append]
  | operator waits yielding held =>
    rw [literals_release]
    exact (List.append_nil _).symm
  | openParen => exact (List.append_nil _).symm
  | closeParen waits inside =>
    rw [literals_release]
    exact (List.append_nil _).symm

/-- A literal is released at once, and what waits holds none. -/
theorem Conversion.literals_run {tokens : List Token} {last : Conversion}
    (ran : start.run tokens = .ok last) :
    Token.literals last.released.reverse = Token.literals tokens := by
  refine foldlM_prefix_induction
    (fun taken state => Token.literals state.released.reverse = Token.literals taken) ?_ ran rfl
  intro taken state token next released stepped
  rw [literals_step stepped, released, Token.literals_append]

/-- Conversion keeps the literals in their order, also with parentheses that are never closed. -/
theorem literals_ofTokens {tokens rpn : List Token} (converted : ofTokens tokens = .ok rpn) :
    Token.literals rpn = Token.literals tokens := by
  obtain ⟨last, ran, finished⟩ := bind_eq_ok_iff.mp converted
  cases finished
  rw [Conversion.finish, literals_release, Conversion.literals_run ran]

/-! ## Evaluation -/

theorem text_of_step {stack : List Float} {token : Token} {literal : String}
    (failed : step stack token = .error (.invalidNumber literal)) : token.text = literal := by
  cases step_eq_error_iff.mp failed with
  | number unreadable => rfl
  | openParen => rfl
  | closeParen => rfl

theorem exists_text_of_run {stack : List Float} {tokens : List Token} {literal : String}
    (failed : run stack tokens = .error (.invalidNumber literal)) :
    ∃ token ∈ tokens, token.text = literal := by
  obtain ⟨before, token, after, _, rfl, _, refused⟩ := exists_of_foldlM_eq_error failed
  exact ⟨token, List.mem_append_right before List.mem_cons_self, text_of_step refused⟩

/-- What an error calls no number is the text of a token. -/
theorem exists_text_of_evaluate {tokens : List Token} {literal : String}
    (failed : evaluate tokens = .error (.invalidNumber literal)) :
    ∃ token ∈ tokens, token.text = literal := by
  rw [evaluate, bind_eq_error_iff] at failed
  rcases failed with ran | ⟨stack, _, counted⟩
  · exact exists_text_of_run ran
  · rcases stack with _ | ⟨value, _ | ⟨second, rest⟩⟩ <;> cases counted

end LineCalc.Rpn
