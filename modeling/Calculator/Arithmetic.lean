import Calculator.LineError
import Calculator.Token

/- How columns are added up. Offsets are machine words of 64 bits: a sum that is no word wraps around, or
   it stops the program. Without a bound every sum is exact. -/
namespace Calculator

/-- Addition, and what becomes of an error; either may end a reading. -/
structure Arithmetic (ε : Type) where
  add : Nat → Nat → Except ε Nat
  reject : LineError → ε

def Arithmetic.exact : Arithmetic LineError := ⟨fun a b => .ok (a + b), id⟩

def wordSize : Nat := 0x10000000000000000

def Arithmetic.wrapping : Arithmetic LineError := ⟨fun a b => .ok ((a + b) % wordSize), id⟩

inductive Halt where
  | rejected (error : LineError)
  | overflow
  deriving DecidableEq, Repr

def Arithmetic.checked : Arithmetic Halt :=
  ⟨fun a b => if a + b < wordSize then .ok (a + b) else .error .overflow, .rejected⟩

variable {ε α : Type}

def Arithmetic.column (A : Arithmetic ε) (t : Placed) : Except ε Nat := A.add t.offset 1

def Arithmetic.endColumn (A : Arithmetic ε) (last? : Option Placed) : Except ε Nat :=
  match last? with
  | none => .ok 1
  | some t => (A.add t.offset t.token.lexeme.utf8ByteSize).bind (A.add · 1)

def Arithmetic.fail (A : Arithmetic ε) (fault : Fault) (column : Except ε Nat) : Except ε α :=
  column.bind fun column => .error (A.reject ⟨fault, column⟩)

end Calculator
