/-!
# Numbers in hexadecimal digits

The four hexadecimal digits by which escapes name a unit of UTF-16. They are written in lower case
and read in either case. Main statement: what is written reads back.
-/

namespace ValidatorGen.Text

/-- Four lower case hexadecimal digits. -/
def hex4 (n : Nat) : List Char :=
  [n / 4096 % 16, n / 256 % 16, n / 16 % 16, n % 16].map Nat.digitChar

/-- The value of a hexadecimal digit. -/
def hexValue? (c : Char) : Option Nat :=
  if '0' ≤ c && c ≤ '9' then some (c.toNat - '0'.toNat)
  else if 'a' ≤ c && c ≤ 'f' then some (c.toNat - 'a'.toNat + 10)
  else if 'A' ≤ c && c ≤ 'F' then some (c.toNat - 'A'.toNat + 10)
  else none

/-- The number that four hexadecimal digits stand for. -/
def hex4? (a b c d : Char) : Option Nat := do
  return (((← hexValue? a) * 16 + (← hexValue? b)) * 16 + (← hexValue? c)) * 16 + (← hexValue? d)

/-- What holds of the sixteen digits holds of all characters that are written. -/
theorem forall_mem_hex4 {property : Char → Prop} (h : ∀ digit < 16, property digit.digitChar)
    (n : Nat) : ∀ c ∈ hex4 n, property c := by
  intro c hc
  obtain ⟨digit, hdigit, rfl⟩ := List.mem_map.mp hc
  refine h digit ?_
  simp only [List.mem_cons, List.not_mem_nil, or_false] at hdigit
  omega

theorem hexValue?_digitChar : ∀ n < 16, hexValue? n.digitChar = some n := by decide

/-- A unit of UTF-16 reads back. -/
theorem hex4?_of_hex4 {n : Nat} (hn : n < 0x10000) {a b c d : Char} (h : hex4 n = [a, b, c, d]) :
    hex4? a b c d = some n := by
  simp only [hex4, List.map_cons, List.map_nil, List.cons.injEq, and_true] at h
  obtain ⟨rfl, rfl, rfl, rfl⟩ := h
  have value (m : Nat) : hexValue? (m % 16).digitChar = some (m % 16) :=
    hexValue?_digitChar _ (Nat.mod_lt _ (by decide))
  simp only [hex4?, value, Option.pure_def, Option.bind_eq_bind, Option.bind_some,
    Option.some.injEq]
  omega

end ValidatorGen.Text
