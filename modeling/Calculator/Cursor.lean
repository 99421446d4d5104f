import Calculator.Token

/- A place in a list of tokens, with the number of parentheses open around it. -/
namespace Calculator

structure Cursor where
  tokens : Array Placed
  position : Nat
  depth : Nat

def Cursor.start (tokens : List Placed) : Cursor := ⟨tokens.toArray, 0, 0⟩

def Cursor.next? (c : Cursor) : Option Placed := c.tokens[c.position]?

def Cursor.second? (c : Cursor) : Option Placed := c.tokens[c.position + 1]?

def Cursor.columnAfter (c : Cursor) : Nat := Calculator.columnAfter c.tokens.toList

/-- Takes the next token; at the end the cursor stays. -/
def Cursor.advance (c : Cursor) : Option Placed × Cursor :=
  match c.next? with
  | none => (none, c)
  | some t => (some t, { c with position := c.position + 1 })

def Cursor.enter (c : Cursor) : Cursor := { c with depth := c.depth + 1 }

def Cursor.leave (c : Cursor) : Cursor := { c with depth := c.depth - 1 }

def Cursor.left (c : Cursor) : Nat := c.tokens.size - c.position

/-- A cursor over the same tokens that has gone on, and not beyond their end. -/
structure Cursor.Onward (c : Cursor) where
  cursor : Cursor
  tokens : cursor.tokens = c.tokens
  further : c.position ≤ cursor.position
  within : cursor.position ≤ max c.position c.tokens.size

def Cursor.stay (c : Cursor) : c.Onward := ⟨c, rfl, Nat.le_refl _, Nat.le_max_left ..⟩

def Cursor.step (c : Cursor) : c.Onward where
  cursor := c.advance.2
  tokens := by unfold advance; split <;> rfl
  further := by unfold advance; split <;> simp
  within := by
    unfold advance next?
    split
    · exact Nat.le_max_left ..
    · rename_i found
      have inside : c.position < c.tokens.size := (Array.getElem?_eq_some_iff.mp found).1
      exact Nat.le_trans inside (Nat.le_max_right ..)

variable {c : Cursor}

def Cursor.Onward.enter (here : c.Onward) : c.Onward :=
  ⟨here.cursor.enter, here.tokens, here.further, here.within⟩

def Cursor.Onward.leave (here : c.Onward) : c.Onward :=
  ⟨here.cursor.leave, here.tokens, here.further, here.within⟩

def Cursor.Onward.before (here : c.Onward) (after : here.cursor.Onward) : c.Onward where
  cursor := after.cursor
  tokens := after.tokens.trans here.tokens
  further := Nat.le_trans here.further after.further
  within := by
    have := here.within
    have := here.tokens ▸ after.within
    omega

def Cursor.Onward.step (here : c.Onward) : c.Onward := here.before here.cursor.step

theorem onward_left (here : c.Onward) : here.cursor.left ≤ c.left := by
  have := here.further
  unfold Cursor.left
  rw [here.tokens]
  omega

theorem step_left {t : Placed} (found : c.next? = some t) : c.step.cursor.left < c.left := by
  have inside : c.position < c.tokens.size := (Array.getElem?_eq_some_iff.mp found).1
  simp only [Cursor.step, Cursor.advance, found, Cursor.left]
  omega

end Calculator
