/-!
# Powers

A power `b ^ k` with a natural exponent is repeated multiplication as `Nat.pow` and `Int.pow`
define it.  The instance for it goes before any other, so that a power means one thing in every
module, whatever other structures on numbers the module knows.
-/

namespace FilterSql

/-- Powers with natural exponents. -/
@[default_instance 20000]
instance (priority := 2000) naturalPower {α : Type} [NatPow α] : Pow α Nat := instPowNat

end FilterSql
