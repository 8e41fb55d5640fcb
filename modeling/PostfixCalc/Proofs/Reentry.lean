import PostfixCalc.Proofs.Chain
import PostfixCalc.Proofs.ReadBack

/-!
# Results entered again

The text of a finite number is a literal that the lexer accepts, with a minus
in front if the sign is set. No literal has a sign, so the minus becomes an
operator: it comes first, where an operand is awaited, and is unary. What it
negates is the magnitude, and since a float is its sign and its magnitude the
value is the number, with the zero of sign minus and all its bits.

Results:
* `Token.tokenize_literal`: a literal is one token.
* `Signed.ofFloat`: a finite number as a signed literal, which has its text and
  its value.
* `Signed.evaluateWith_text`: the value of a signed literal that is all of the
  text.
* `Expression.evaluate_answer_text`: a finite result, entered as an expression,
  has itself as value.
-/

namespace PostfixCalc

open Binary64 Token

/-- The text of a literal has the literal as its only token. -/
theorem Token.tokenize_literal {n : Numeral} (hn : n.WellFormed)
    (hvalue : n.decimal.value < overflow) : tokenize n.literal = .ok [.num n.literal] := by
  have hlex := lexFrom_literal_append hn hvalue Numeral.stops_nil 0 none
  rw [List.append_nil, lexFrom_nil] at hlex
  rw [tokenize, Numeral.literal, String.toList_ofList, hlex]
  rfl

/-- A finite magnitude is written as a literal. -/
theorem Scalar.tokenize_magnitudeText {w : ℕ} (hw : w < infinityWord) :
    tokenize (String.ofList (magnitudeText w)) =
      .ok [.num (String.ofList (magnitudeText w))] := by
  obtain ⟨n, hn, htext, hword⟩ := exists_numeral_magnitudeText hw
  have hvalue : n.decimal.value < overflow := by
    rw [← n.decimal.nearestWord_lt_infinityWord_iff, hword]
    exact hw
  rw [htext]
  exact tokenize_literal hn hvalue

namespace Signed

/-- A finite number as the signed literal by which it is shown. -/
def ofFloat (x : Float) (h : x.isFinite = true) : Signed where
  negative := isNegative x
  literal := String.ofList (Scalar.magnitudeText (word x))
  accepted := Scalar.tokenize_magnitudeText ((isFinite_iff x).mp h)

variable {x : Float} (h : x.isFinite = true)

theorem text_ofFloat : (ofFloat x h).text = Scalar.text x := by
  have hnan : x.isNaN = false := (isNaN_eq_false_iff x).mpr ((isFinite_iff x).mp h).le
  rw [Scalar.text, Scalar.chars_of_isNaN hnan]
  unfold text ofFloat
  split_ifs
  · rw [String.ofList_cons]
    rfl
  · rfl

/-- Reading its text, a signed literal of a number gives the number. -/
theorem value_ofFloat : (ofFloat x h).value = x := by
  have hread := (ofFloat x h).read?_text
  rw [text_ofFloat, Scalar.read?, Scalar.text, String.toList_ofList, Scalar.readChars?_chars] at hread
  exact (Option.some.inj hread).symm

/-- A signed literal is an expression, and no operation is asked for. -/
theorem evaluateWith_text (w : Signed) (r : Registry) :
    Expression.evaluateWith r w.text = .ok w.value := by
  have hlex : tokenize w.text = .ok w.tokens := by
    have hawaits : (none : Option Token).all awaitsOperand = true := rfl
    have hlex := w.lexFrom_text hawaits Numeral.stops_nil (fun _ => lexFrom_nil) 0
    rwa [List.append_nil, List.append_nil] at hlex
  rw [Expression.evaluateWith_of_tokens hlex (Postfix.ofInfix_derives w.derives_tree),
    Machine.evaluate_program, w.evaluate_tree]

end Signed

namespace Expression

/-- With any operations, the text of a finite number has the number as value. -/
theorem evaluateWith_scalar_text {x : Float} (h : x.isFinite = true) (r : Registry) :
    evaluateWith r (Scalar.text x) = .ok x := by
  have heval := (Signed.ofFloat x h).evaluateWith_text r
  rwa [Signed.text_ofFloat, Signed.value_ofFloat] at heval

/-- **A finite result can be entered again**: as an expression its text has the
    number itself as value, bit for bit, wherever the number came from. -/
theorem evaluate_answer_text :
    (∀ v : Float, v.isFinite = true → evaluate (Answer.scalar v).text = .ok v) ∧
    ∀ (s : String) (v : Float), evaluate s = .ok v → v.isFinite = true →
      evaluate (Answer.scalar v).text = .ok v :=
  ⟨fun _ h => evaluateWith_scalar_text h .standard,
    fun _ _ _ h => evaluateWith_scalar_text h .standard⟩

/-- The zero of sign minus, the smallest number, the largest one with a minus,
    and a quotient. -/
theorem evaluate_answer_text_samples :
    evaluate (Answer.scalar (-0.0)).text = .ok (-0.0) ∧
    evaluate (Answer.scalar 5e-324).text = .ok 5e-324 ∧
    evaluate (Answer.scalar (-1.7976931348623157e308)).text = .ok (-1.7976931348623157e308) ∧
    ∃ v, evaluate "2 / -3" = .ok v ∧ v.isFinite = true ∧
      evaluate (Answer.scalar v).text = .ok v := by
  have hquotient : evaluate "2 / -3" = .ok (-0.6666666666666666) := by decide +kernel
  have hquotient_finite : (-0.6666666666666666 : Float).isFinite = true := by decide +kernel
  refine ⟨?_, ?_, ?_, _, hquotient, hquotient_finite, ?_⟩
  · exact evaluate_answer_text.1 _ (by decide +kernel)
  · exact evaluate_answer_text.1 _ (by decide +kernel)
  · exact evaluate_answer_text.1 _ (by decide +kernel)
  · exact evaluate_answer_text.2 _ _ hquotient hquotient_finite

end Expression

end PostfixCalc
