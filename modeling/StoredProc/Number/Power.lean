/-!
# Powers and limits

Powers of two and ten, and the limits of numbers of 64 bits.
-/

namespace StoredProc

def powerOfTwo (exponent : Nat) : Nat := Nat.pow 2 exponent

def powerOfTen (exponent : Nat) : Nat := Nat.pow 10 exponent

/-- The size of the least integer of 64 bits; all sizes below it have both signs. -/
def int64Limit : Nat := 9223372036854775808

/-- The first number that does not fit in 64 bits. -/
def word64Limit : Nat := 18446744073709551616

end StoredProc
