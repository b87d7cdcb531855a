/-!
# Console — identifiers

An identifier is a number of 128 bits in hexadecimal digits with dashes, of which six bits are fixed
to tell that the others are arbitrary.

Main definitions:

* `identifier` — the identifier of a number.
-/

namespace Taskyard.Console

/-- So many hexadecimal digits of a number. -/
def hexDigits (digits n : Nat) : List Char :=
  let ds := Nat.toDigits 16 (n % (1 <<< (4 * digits)))
  List.replicate (digits - ds.length) '0' ++ ds

/-- The identifier of a number. -/
def identifier (n : Nat) : String :=
  let part (place digits : Nat) := hexDigits digits (n >>> (4 * place))
  let fourth := hexDigits 1 (8 + (n >>> 60) % 4)
  String.ofList (part 24 8 ++ '-' :: part 20 4 ++ '-' :: '4' :: part 16 3 ++ '-' :: fourth ++
    part 12 3 ++ '-' :: part 0 12)

end Taskyard.Console
