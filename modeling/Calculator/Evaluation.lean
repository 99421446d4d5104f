import Calculator.Expr
import Calculator.Store

/- Evaluating a tree with a list of tasks and a list of values, so that deep trees need no deep
   recursion. Operands are visited from left to right, and a visit puts its value on the values. -/
namespace Calculator

inductive Task where
  | visit (e : Expr)
  | negate
  | apply (op : BinaryOp)
  | bind (name : String)

/-- `bound` lists the bindings made so far, the latest first. -/
structure Machine where
  tasks : List Task
  values : List Float
  store : Store
  bound : List (String × Float)

def Machine.top (m : Machine) : Float := m.values.head?.getD 0

def Machine.push (m : Machine) (x : Float) : Machine := { m with values := x :: m.values }

def Machine.pop (m : Machine) : Float × Machine := (m.top, { m with values := m.values.tail })

def Machine.schedule (m : Machine) (tasks : List Task) : Machine := { m with tasks := tasks ++ m.tasks }

def Machine.bind (m : Machine) (name : String) : Machine :=
  { m with store := m.store.set name m.top, bound := (name, m.top) :: m.bound }

def Machine.perform (m : Machine) : Task → Machine
  | .visit (.number x) => m.push x
  | .visit (.name text) => m.push (m.store.get text)
  | .visit (.negation e) => m.schedule [.visit e, .negate]
  | .visit (.binary op l r) => m.schedule [.visit l, .visit r, .apply op]
  | .visit (.assignment target e) => m.schedule [.visit e, .bind target]
  | .negate =>
    let (x, m) := m.pop
    m.push (-x)
  | .apply op =>
    let (right, m) := m.pop
    let (left, m) := m.pop
    m.push (op.apply left right)
  | .bind name => m.bind name

def Task.weight : Task → Nat
  | .visit e => 2 * e.size
  | _ => 1

def Machine.weight (m : Machine) : Nat := m.tasks.foldr (fun t n => t.weight + n) 0

theorem weight_perform_lt (m : Machine) (t : Task) :
    (m.perform t).weight < t.weight + m.weight := by
  cases t with
  | visit e =>
    cases e <;>
      simp [Machine.perform, Machine.push, Machine.schedule, Machine.weight, Task.weight, Expr.size] <;> omega
  | _ => simp [Machine.perform, Machine.push, Machine.pop, Machine.bind, Machine.weight, Task.weight]

def Machine.next? (m : Machine) : Option Machine :=
  match m.tasks with
  | [] => none
  | t :: tasks => some ({ m with tasks := tasks }.perform t)

theorem weight_next_lt {m n : Machine} (step : m.next? = some n) : n.weight < m.weight := by
  obtain ⟨tasks, values, store, bound⟩ := m
  cases tasks with
  | nil => simp [Machine.next?] at step
  | cons t tasks =>
    have lighter := weight_perform_lt ⟨tasks, values, store, bound⟩ t
    simp only [Machine.next?, Option.some.injEq] at step
    subst step
    simpa [Machine.weight] using lighter

def Machine.run (m : Machine) : Machine :=
  match _ : m.next? with
  | none => m
  | some n => n.run
termination_by m.weight
decreasing_by exact weight_next_lt ‹_›

theorem run_next {m n : Machine} (step : m.next? = some n) : m.run = n.run := by
  rw [Machine.run]
  split <;> simp_all

theorem run_idle (values : List Float) (s : Store) (bound : List (String × Float)) :
    Machine.run ⟨[], values, s, bound⟩ = ⟨[], values, s, bound⟩ := by
  rw [Machine.run]
  rfl

structure Evaluation where
  value : Float
  store : Store
  bound : List (String × Float)

def Store.evaluation (s : Store) (e : Expr) : Evaluation :=
  let m := Machine.run ⟨[.visit e], [], s, []⟩
  ⟨m.top, m.store, m.bound.reverse⟩

def Store.eval (s : Store) (e : Expr) : Float × Store :=
  ((s.evaluation e).value, (s.evaluation e).store)

def Store.negated (s : Store) (e : Expr) : Float × Store :=
  let (x, s) := s.eval e
  (-x, s)

/-- The value of an operation on two operands; the right one sees what the left one binds. -/
def Store.operated (s : Store) (op : BinaryOp) (l r : Expr) : Float × Store :=
  let (left, s) := s.eval l
  let (right, s) := s.eval r
  (op.apply left right, s)

end Calculator
