import SchemaGraph.Text.Hexadecimal

/-!
# Runs and digits that are read back

A reader takes the longest run of characters of a class. What was written as such a run is taken
whole if the text behind it does not go on with the class. The digits of a number are such a run,
whether they are decimal or hexadecimal, and give the number back.
-/

namespace SchemaGraph.Text

/-- The text does not go on with a character of the class. -/
def Stops (continues : Char → Bool) (text : List Char) : Prop :=
  ∀ c ∈ text.head?, continues c = false

section Stops

variable {continues : Char → Bool}

/-- At the end of a text nothing goes on. -/
@[simp] theorem stops_nil : Stops continues [] := by
  simp [Stops]

/-- A text stops where its first character does not go on. -/
@[simp] theorem stops_cons {c : Char} {rest : List Char} :
    Stops continues (c :: rest) ↔ continues c = false := by
  simp [Stops]

/-- What stops more stops less. -/
theorem Stops.mono {narrower : Char → Bool} {text : List Char} (stops : Stops continues text)
    (narrows : ∀ c, narrower c = true → continues c = true) : Stops narrower text := by
  intro c first
  have stop := stops c first
  exact Bool.eq_false_iff.mpr fun goesOn => by simp [narrows c goesOn] at stop

/-- A part of a text stops where the text does. -/
theorem Stops.take {text : List Char} (stops : Stops continues text) (most : Nat) :
    Stops continues (text.take most) := by
  cases most with
  | zero => exact stops_nil
  | succ most => cases text <;> simp_all

/-- Where nothing goes on nothing is dropped. -/
theorem Stops.dropWhile_eq {text : List Char} (stops : Stops continues text) :
    text.dropWhile continues = text := by
  cases text with
  | nil => rfl
  | cons c rest => simp [stops_cons.mp stops]

variable {run rest : List Char}

/-- A run that stops is what is taken. -/
theorem takeWhile_run (inside : ∀ c ∈ run, continues c = true) (stops : Stops continues rest) :
    (run ++ rest).takeWhile continues = run := by
  rw [List.takeWhile_append_of_pos inside]
  cases rest with
  | nil => simp
  | cons c rest => simp [stops_cons.mp stops]

/-- What stands behind a run that stops is what is left. -/
theorem dropWhile_run (inside : ∀ c ∈ run, continues c = true) (stops : Stops continues rest) :
    (run ++ rest).dropWhile continues = rest := by
  rw [List.dropWhile_append_of_pos inside, stops.dropWhile_eq]

end Stops

/-- A number is written in digits. -/
theorem isDigit_of_mem_toDigits {n : Nat} {c : Char} (listed : c ∈ Nat.toDigits 10 n) :
    c.isDigit = true :=
  Nat.isDigit_of_mem_toDigits (by decide) (by decide) listed

/-- The digits of a number other than zero do not begin with a zero. -/
theorem head_toDigits_ne_zero {n : Nat} (positive : n ≠ 0) :
    ∀ c ∈ (Nat.toDigits 10 n).head?, c ≠ '0' := by
  induction n using Nat.strongRecOn with
  | ind n ih =>
    by_cases small : n < 10
    · simp [Nat.toDigits_of_lt_base small, positive]
    · have shorter := ih (n / 10) (by omega) (by omega)
      rw [Nat.toDigits_of_base_le (by decide) (by omega)]
      cases digits : Nat.toDigits 10 (n / 10) with
      | nil => exact absurd digits Nat.toDigits_ne_nil
      | cons first _ => simpa [digits] using shorter

/-- A digit below sixteen is read back. -/
theorem hexValue?_hexDigit {n : Nat} (small : n < 16) : hexValue? (hexDigit n) = some n := by
  have all : ∀ n < 16, hexValue? (hexDigit n) = some n := by decide
  exact all n small

/-- A hexadecimal digit has the value that it was written for. -/
theorem hexValue?_upperHexDigit {n : Nat} (small : n < 16) :
    hexValue? (upperHexDigit n) = some n := by
  have all : ∀ n < 16, hexValue? (upperHexDigit n) = some n := by decide
  exact all n small

/-- Two hexadecimal digits behind zeros give back a number of one byte. -/
theorem hexNatural?_pair {n : Nat} {high low : Char} (highValue : hexValue? high = some (n / 16))
    (lowValue : hexValue? low = some (n % 16)) :
    hexNatural? ['0', '0', high, low] = some n := by
  have zero : hexValue? '0' = some 0 := by decide
  simp only [hexNatural?, hexNaturalFrom?, zero, highValue, lowValue, Option.some.injEq]
  omega

end SchemaGraph.Text
