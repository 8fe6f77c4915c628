import F3.Lib.Bytes
import F3.Lib.Writes

/-! Python's texts, what of its built-in functions depends on the version and on the locale,
and os.environ: the variables are kept as bytes, and putenv refuses some of them. -/
namespace F3.Lib.Python
open Lib (Bytes)
open Lib.Writes

-- The code points of a str; lone surrogates are among them.
abbrev Text := List Nat

structure Builtins where
  isSpace : Nat → Bool
  encode : Text → Option Bytes
  decode : Bytes → Text
  int : Text → Option Int
  str : Int → Option Text

inductive Value where
  | str (text : Text)
  | other
  deriving DecidableEq, Repr

abbrev Env := Bytes → Option Bytes

variable (b : Builtins)

def words (text : Text) : List Text := (text.splitOnP b.isSpace).filter (· ≠ [])

-- What a str becomes in the environment; a NUL is refused.
def envValue (text : Text) : Option Bytes := do
  let v ← b.encode text
  if 0 ∈ v then none else some v

def envKey (text : Text) : Option Bytes := do
  let k ← envValue b text
  if k = [] ∨ 61 ∈ k then none else some k

def setItem (env : Env) (k : Bytes) (v : Bytes) : Env := Function.update env k (some v)
def delItem (env : Env) (k : Bytes) : Env := Function.update env k none

/-! The built-in functions on ASCII. -/

def intDigits : Nat → Bool → Text → Option Nat
  | n,digit,[] => if digit then some n else none
  | n,digit,c::rest =>
      if 48 ≤ c ∧ c ≤ 57 then intDigits (n * 10 + (c - 48)) true rest
      else if c = 95 ∧ digit then intDigits n false rest
      else none

def intText (isSpace : Nat → Bool) (text : Text) : Option Int :=
  let inner := ((text.dropWhile isSpace).reverse.dropWhile isSpace).reverse
  match inner with
  | 43::rest => (intDigits 0 false rest).map Int.ofNat
  | 45::rest => (intDigits 0 false rest).map fun n => -Int.ofNat n
  | rest => (intDigits 0 false rest).map Int.ofNat

def strInt (n : Int) : Text :=
  (if n < 0 then [45] else []) ++ (Nat.toDigits 10 n.natAbs).map Char.toNat

def ascii : Builtins where
  isSpace c := (9 ≤ c ∧ c ≤ 13) ∨ (28 ≤ c ∧ c ≤ 32)
  encode text := if ∀ c ∈ text, c < 128 then some (text.map UInt8.ofNat) else none
  decode bytes := bytes.map UInt8.toNat
  int := intText fun c => (9 ≤ c ∧ c ≤ 13) ∨ c = 32
  str n := some (strInt n)

end F3.Lib.Python
