/-! # Sizes of machine words -/

namespace Intake

/-- How many values a word of 32 bits has, `2 ^ 32`. -/
def size32 : Nat := 4294967296

/-- How many values a word of 64 bits has, `2 ^ 64`. -/
def size64 : Nat := 18446744073709551616

end Intake
