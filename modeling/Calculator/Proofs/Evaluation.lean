import Calculator.Evaluation
import Calculator.Meaning
import Mathlib.Logic.Relation

/- The machine computes the meaning of a tree. A visit on top of any tasks and values ends with the
   tree's value on those values, and the tasks always find the values that they take. -/
namespace Calculator

def Machine.Steps (m n : Machine) : Prop := m.next? = some n

def Machine.start (s : Store) (e : Expr) : Machine := ⟨[.visit e], [], s, []⟩

def Machine.Reaches (m n : Machine) : Prop := Relation.ReflTransGen Machine.Steps m n

def Machine.pop? (m : Machine) : Option (Float × Machine) :=
  match m.values with
  | [] => none
  | x :: values => some (x, { m with values := values })

def Machine.perform? (m : Machine) : Task → Option Machine
  | .visit e => some (m.perform (.visit e))
  | .negate => m.pop?.map fun (x, m) => m.push (-x)
  | .apply op =>
    m.pop?.bind fun (right, m) => m.pop?.map fun (left, m) => m.push (op.apply left right)
  | .bind name => m.pop?.map fun _ => m.bind name

/-- The next step, without a value to fall back on. -/
def Machine.strictNext? (m : Machine) : Option Machine :=
  match m.tasks with
  | [] => none
  | t :: tasks => { m with tasks := tasks }.perform? t

/-- The tasks find the values they take on a stack of the given height, and leave one. -/
def Enough : List Task → Nat → Prop
  | [], height => height = 1
  | .visit _ :: tasks, height => Enough tasks (height + 1)
  | .negate :: tasks, height | .bind _ :: tasks, height => 1 ≤ height ∧ Enough tasks height
  | .apply _ :: tasks, height => 2 ≤ height ∧ Enough tasks (height - 1)

def Expr.writes : Expr → Store → List (String × Float)
  | .number _, _ | .name _, _ => []
  | .negation e, s => e.writes s
  | .binary _ l r, s => l.writes s ++ r.writes (l.meaning s).2
  | .assignment target e, s => e.writes s ++ [(target, (e.meaning s).1)]

theorem start_enough (s : Store) (e : Expr) :
    Enough (Machine.start s e).tasks (Machine.start s e).values.length := rfl

theorem two_values {values : List Float} (two : 2 ≤ values.length) :
    ∃ x y below, values = x :: y :: below := by
  obtain ⟨x, rest, rfl⟩ := List.exists_cons_of_length_pos (Nat.lt_of_lt_of_le Nat.two_pos two)
  obtain ⟨y, below, rfl⟩ := List.exists_cons_of_length_pos (Nat.le_of_succ_le_succ two)
  exact ⟨x, y, below, rfl⟩

theorem step_enough {m n : Machine} (enough : Enough m.tasks m.values.length) (step : m.Steps n) :
    Enough n.tasks n.values.length := by
  obtain ⟨tasks, values, store, bound⟩ := m
  cases tasks with
  | nil => cases step
  | cons t tasks =>
    obtain rfl := Option.some.inj step
    cases t with
    | visit e =>
      cases e with
      | number x | name text => exact enough
      | negation e | assignment target e =>
        simpa [Machine.perform, Machine.schedule, Enough] using enough
      | binary op l r =>
        simpa [Machine.perform, Machine.schedule, Enough] using enough
    | negate =>
      obtain ⟨some, rest⟩ := enough
      obtain ⟨x, below, rfl⟩ := List.exists_cons_of_length_pos some
      exact rest
    | apply op =>
      obtain ⟨two, rest⟩ := enough
      obtain ⟨x, y, below, rfl⟩ := two_values two
      exact rest
    | bind name => exact enough.2

theorem reaches_enough {s : Store} {e : Expr} {m : Machine}
    (reached : (Machine.start s e).Reaches m) : Enough m.tasks m.values.length := by
  induction reached with
  | refl => exact start_enough s e
  | tail before step ih => exact step_enough ih step

theorem strictNext_eq_next {m : Machine} (enough : Enough m.tasks m.values.length) :
    m.strictNext? = m.next? := by
  obtain ⟨tasks, values, store, bound⟩ := m
  cases tasks with
  | nil => rfl
  | cons t tasks =>
    cases t with
    | visit e => rfl
    | negate | bind name =>
      obtain ⟨x, below, rfl⟩ := List.exists_cons_of_length_pos enough.1
      rfl
    | apply op =>
      obtain ⟨x, y, below, rfl⟩ := two_values enough.1
      rfl

theorem visit_reaches (e : Expr) (tasks : List Task) (values : List Float) (s : Store)
    (bound : List (String × Float)) :
    Machine.Reaches ⟨.visit e :: tasks, values, s, bound⟩
      ⟨tasks, (e.meaning s).1 :: values, (e.meaning s).2, (e.writes s).reverse ++ bound⟩ := by
  induction e generalizing tasks values s bound with
  | number x => exact .single rfl
  | name text =>
    rw [meaning_name]
    exact .single rfl
  | negation e ih =>
    exact .head rfl ((ih (.negate :: tasks) values s bound).tail rfl)
  | binary op l r ihl ihr =>
    have left := ihl (.visit r :: .apply op :: tasks) values s bound
    have right := ihr (.apply op :: tasks) ((l.meaning s).1 :: values) (l.meaning s).2
      ((l.writes s).reverse ++ bound)
    rw [← List.append_assoc, ← List.reverse_append] at right
    exact .head rfl (left.trans (right.tail rfl))
  | assignment target e ih =>
    have value := ih (.bind target :: tasks) values s bound
    refine .head rfl (value.tail ?_)
    simp [Machine.Steps, Machine.next?, Machine.perform, Machine.bind, Machine.top,
      meaning_assignment, Expr.writes]

theorem run_reached {m n : Machine} (reached : m.Reaches n) : m.run = n.run := by
  induction reached with
  | refl => rfl
  | tail before step ih => exact ih.trans (run_next step)

theorem start_reaches (s : Store) (e : Expr) :
    (Machine.start s e).Reaches
      ⟨[], [(e.meaning s).1], (e.meaning s).2, (e.writes s).reverse⟩ := by
  simpa [Machine.start] using visit_reaches e [] [] s []

theorem evaluation_eq (s : Store) (e : Expr) :
    s.evaluation e = ⟨(e.meaning s).1, (e.meaning s).2, e.writes s⟩ := by
  have run : Machine.run ⟨[.visit e], [], s, []⟩ = _ :=
    (run_reached (start_reaches s e)).trans (run_idle ..)
  simp [Store.evaluation, run, Machine.top]

theorem eval_eq (s : Store) (e : Expr) : s.eval e = e.meaning s := by
  simp [Store.eval, evaluation_eq]

/-- The machine gives every tree its meaning. On the way no task ever falls back on a missing value,
    and when no task is left exactly one value is. -/
theorem eval_eq_meaning (s : Store) (e : Expr) :
    s.eval e = e.meaning s ∧
    (∀ m, (Machine.start s e).Reaches m →
      m.strictNext? = m.next? ∧ (m.tasks = [] → m.values.length = 1)) ∧
    ∃ last, (Machine.start s e).Reaches last ∧ last.tasks = [] := by
  refine ⟨by simp [Store.eval, evaluation_eq], fun m reached => ?_, _, start_reaches s e, rfl⟩
  have enough := reaches_enough reached
  refine ⟨strictNext_eq_next enough, fun idle => ?_⟩
  rw [idle] at enough
  exact enough

end Calculator
