import McuTest.Numerals

/-! The text of a C format with the conversions `%s`, `%u`, `%0Nu` and `%0NX`. -/

namespace Printf

inductive Arg where
  | num (n : Nat)
  | str (s : List UInt8)
  deriving DecidableEq

inductive Piece where
  | lit (c : UInt8)
  | num (base width : Nat)
  | str
  deriving DecidableEq

def ascii (c : Char) : UInt8 :=
  UInt8.ofNat c.toNat

def bytes (s : String) : List UInt8 :=
  s.toList.map ascii

def pieces : List Char → List Piece
  | '%' :: 's' :: cs => .str :: pieces cs
  | '%' :: 'u' :: cs => .num 10 0 :: pieces cs
  | '%' :: '0' :: w :: 'u' :: cs => .num 10 (w.toNat - 48) :: pieces cs
  | '%' :: '0' :: w :: 'X' :: cs => .num 16 (w.toNat - 48) :: pieces cs
  | c :: cs => .lit (ascii c) :: pieces cs
  | [] => []

/-- The text ends where a conversion has no argument of its kind. -/
def fill : List Piece → List Arg → List UInt8
  | .lit c :: ps, as => c :: fill ps as
  | .num base width :: ps, .num n :: as => Numerals.numeral base width n ++ fill ps as
  | .str :: ps, .str s :: as => s ++ fill ps as
  | _, _ => []

def text (format : String) (args : List Arg) : List UInt8 :=
  fill (pieces format.toList) args

theorem fill_lits (cs : List UInt8) (as : List Arg) : fill (cs.map .lit) as = cs := by
  induction cs with
  | nil => rfl
  | cons c cs ih => rw [List.map_cons, fill, ih]

example : text "%s/%02X" [.str [97], .num 10] = [97, 47, 48, 65] := by decide

end Printf
