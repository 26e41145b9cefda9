namespace Authorization

def hexValue? (c : Char) : Option Nat :=
  if '0' ≤ c ∧ c ≤ '9' then some (c.toNat - '0'.toNat)
  else if 'a' ≤ c ∧ c ≤ 'f' then some (c.toNat - 'a'.toNat + 10)
  else if 'A' ≤ c ∧ c ≤ 'F' then some (c.toNat - 'A'.toNat + 10)
  else none

theorem hexValue?_digitChar {n : Nat} (bound : n < 16) : hexValue? n.digitChar = some n := by
  have all : ∀ n : Fin 16, hexValue? n.val.digitChar = some n.val := by decide
  exact all ⟨n, bound⟩

end Authorization
