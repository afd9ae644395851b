import LineCalc.Phrase
import LineCalc.Proofs.Token.Spelling
import Mathlib

/-!
# Lines without a question

The question opens with a letter, and a text that is written from tokens has no letters.
-/

set_option autoImplicit false

namespace LineCalc.Phrase

/-! ## The search -/

theorem atStart?_eq_none {text : List Char} (unopened : ¬ opening <+: text) : atStart? text = none := by
  have missing : opening.isPrefixOf? text = none := by
    rw [Option.eq_none_iff_forall_ne_some]
    intro rest found
    exact unopened ⟨rest, List.isPrefixOf?_eq_some_iff_append_eq.mp found⟩
  rw [atStart?, missing]
  rfl

theorem within?_cons_of_some {character : Char} {rest : List Char} {phrase : Phrase}
    (read : atStart? (character :: rest) = some phrase) : within? (character :: rest) = some phrase := by
  rw [within?, read]
  rfl

theorem within?_cons_of_none {character : Char} {rest : List Char}
    (read : atStart? (character :: rest) = none) : within? (character :: rest) = within? rest := by
  rw [within?, read]
  rfl

/-- Text is passed over in which the opening words start nowhere. -/
theorem within?_append {before after : List Char}
    (apart : ∀ rest, rest <:+ before → rest ≠ [] → ¬ opening <+: rest ++ after) :
    within? (before ++ after) = within? after := by
  induction before with
  | nil => rfl
  | cons character before ih =>
    have start : atStart? (character :: (before ++ after)) = none :=
      atStart?_eq_none (apart _ (List.suffix_refl (character :: before)) (List.cons_ne_nil _ _))
    rw [List.cons_append, within?_cons_of_none start]
    exact ih fun rest suffix => apart rest (suffix.trans (List.suffix_cons character before))

theorem within?_append_of_not_mem {before after : List Char} (absent : 'w' ∉ before) :
    within? (before ++ after) = within? after := by
  apply within?_append
  rintro rest suffix filled ⟨others, same⟩
  cases rest with
  | nil => exact filled rfl
  | cons first rest =>
    have letter : 'w' = first := (List.cons.inj same).1
    exact absent (letter ▸ suffix.mem List.mem_cons_self)

private theorem within?_eq_none {text : List Char} (absent : 'w' ∉ text) : within? text = none := by
  rw [← List.append_nil text, within?_append_of_not_mem absent]
  rfl

/-! ## Texts without letters -/

theorem toLower_eq_self {character : Char}
    (bounds : character.toNat ≤ 57 ∨ 133 ≤ character.toNat) : character.toLower = character := by
  have outside : ¬ (character.val ≥ 'A'.val ∧ character.val ≤ 'Z'.val) := by
    intro upper
    have lower : 65 ≤ character.toNat := upper.1
    have above : character.toNat ≤ 90 := upper.2
    omega
  rw [Char.toLower, dif_neg outside]

theorem ofLine?_eq_none_of_rendering {tokens : List Token} {line : String}
    (rendering : Token.Rendering tokens line.toList)
    (shapes : ∀ literal ∈ Token.literals tokens, Token.isLiteral literal = true) :
    ofLine? line = none := by
  have absent : 'w' ∉ line.toList.map Char.toLower := by
    intro member
    obtain ⟨character, found, lower⟩ := List.mem_map.mp member
    have bounds := rendering.toNat_of_mem shapes found
    rw [toLower_eq_self bounds] at lower
    subst lower
    revert bounds
    decide
  exact within?_eq_none absent

end LineCalc.Phrase
