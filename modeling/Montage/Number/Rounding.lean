/-!
# Rounding a quotient

A quotient of natural numbers is rounded to the nearest natural number, and a tie goes to the even
neighbour. The main statement, `roundHalfEven_near`, bounds the error by a half.
-/

namespace Montage

/-- The natural number nearest to `num / den`, the even one of two that are equally near. -/
def roundHalfEven (num den : Nat) : Nat :=
  let quotient := num / den
  let twice := 2 * (num % den)
  if twice < den then quotient
  else if den < twice then quotient + 1
  else quotient + quotient % 2

/-- The rounded quotient is at most a half away from the quotient. -/
theorem roundHalfEven_near {num den : Nat} (h : 0 < den) :
    2 * num ≤ (2 * roundHalfEven num den + 1) * den ∧
      (2 * roundHalfEven num den) * den ≤ 2 * num + den := by
  have hdiv := Nat.div_add_mod num den
  have hlt := Nat.mod_lt num h
  have hodd : num / den % 2 = 0 ∨ num / den % 2 = 1 := by omega
  generalize hq : num / den = q at *
  generalize hr : num % den = r at *
  have hcases : roundHalfEven num den = q ∧ 2 * r ≤ den ∨
      roundHalfEven num den = q + 1 ∧ den ≤ 2 * r := by
    unfold roundHalfEven
    simp only [hq, hr]
    split
    · exact Or.inl ⟨rfl, by omega⟩
    · split
      · exact Or.inr ⟨rfl, by omega⟩
      · rcases hodd with h0 | h1
        · exact Or.inl ⟨by omega, by omega⟩
        · exact Or.inr ⟨by omega, by omega⟩
  have hmul : den * q = q * den := Nat.mul_comm _ _
  rcases hcases with ⟨heq, hle⟩ | ⟨heq, hle⟩ <;> rw [heq] <;>
    simp only [Nat.add_mul, Nat.mul_add, Nat.mul_assoc] <;> omega

end Montage
