import Calculator.Proofs.Composition
import Calculator.Proofs.Effects

/- The nodes of a tree in the order in which they are done, and what those that are assignments do to the
   store. A name is left with the value of the assignment that is done last, and other names are left as
   they were. -/
namespace Calculator

/-- The nodes of a tree from left to right, each after the nodes below it. -/
def Expr.postorder : Expr → List Expr
  | .number x => [.number x]
  | .name text => [.name text]
  | .negation e => e.postorder ++ [.negation e]
  | .binary op l r => l.postorder ++ (r.postorder ++ [.binary op l r])
  | .assignment target e => e.postorder ++ [.assignment target e]

def Expr.visited : Expr → Store → List (Expr × Store)
  | .number x, s => [(.number x, s)]
  | .name text, s => [(.name text, s)]
  | .negation e, s => e.visited s ++ [(.negation e, s)]
  | .binary op l r, s => l.visited s ++ (r.visited (s.eval l).2 ++ [(.binary op l r, s)])
  | .assignment target e, s => e.visited s ++ [(.assignment target e, s)]

def Expr.Binds (e : Expr) (name : String) : Prop := ∃ value, .assignment name value ∈ e.postorder

/-- What a node writes itself: an assignment binds its name to the value that it has. -/
def Expr.write? : Expr × Store → Option (String × Float)
  | (.assignment target value, s) => some (target, (s.eval (.assignment target value)).1)
  | _ => none

variable {e : Expr} {s : Store} {name : String}

theorem visited_nodes (e : Expr) (s : Store) : (e.visited s).map Prod.fst = e.postorder := by
  induction e generalizing s with
  | number x => rfl
  | name text => rfl
  | negation e ih | assignment target e ih => simp [Expr.visited, Expr.postorder, ih]
  | binary op l r ihl ihr => simp [Expr.visited, Expr.postorder, ihl, ihr]

theorem evaluation_bound (e : Expr) (s : Store) :
    (s.evaluation e).bound = (e.visited s).filterMap Expr.write? := by
  induction e generalizing s with
  | number x => rw [evaluation_number]; rfl
  | name text => rw [evaluation_name]; rfl
  | negation e ih => simp [evaluation_negation, Expr.visited, Expr.write?, ih]
  | binary op l r ihl ihr =>
    simp [evaluation_binary, Expr.visited, Expr.write?, ihl, ihr, Store.eval]
  | assignment target e ih =>
    simp [evaluation_assignment, Expr.visited, Expr.write?, ih, Store.eval]

theorem evaluation_store (s : Store) (e : Expr) :
    (s.evaluation e).store = s.setAll (s.evaluation e).bound := by
  simp [evaluation_eq, meaning_store]

theorem visited_reached (e : Expr) (tasks : List Task) (values : List Float) (s : Store)
    (bound : List (String × Float)) {node : Expr} {t : Store} (visit : (node, t) ∈ e.visited s) :
    ∃ tasks' values' bound',
      Machine.Reaches ⟨.visit e :: tasks, values, s, bound⟩
        ⟨.visit node :: tasks', values', t, bound'⟩ := by
  induction e generalizing tasks values s bound with
  | number x | name text =>
    obtain ⟨rfl, rfl⟩ : node = _ ∧ t = s := by simpa [Expr.visited] using visit
    exact ⟨_, _, _, .refl⟩
  | negation e ih | assignment target e ih =>
    rcases List.mem_append.mp visit with inner | root
    · obtain ⟨tasks', values', bound', reached⟩ := ih _ values s bound inner
      exact ⟨tasks', values', bound', .head rfl reached⟩
    · obtain ⟨rfl, rfl⟩ : node = _ ∧ t = s := by simpa using root
      exact ⟨_, _, _, .refl⟩
  | binary op l r ihl ihr =>
    rcases List.mem_append.mp visit with left | visit
    · obtain ⟨tasks', values', bound', reached⟩ := ihl _ values s bound left
      exact ⟨tasks', values', bound', .head rfl reached⟩
    · rcases List.mem_append.mp visit with right | root
      · rw [eval_eq] at right
        have left := visit_reaches l (.visit r :: .apply op :: tasks) values s bound
        obtain ⟨tasks', values', bound', reached⟩ := ihr _ _ _ _ right
        exact ⟨tasks', values', bound', .head rfl (left.trans reached)⟩
      · obtain ⟨rfl, rfl⟩ : node = _ ∧ t = s := by simpa using root
        exact ⟨_, _, _, .refl⟩

theorem write_iff {visit : Expr × Store} {binding : String × Float} :
    Expr.write? visit = some binding ↔
      (∃ value, visit.1 = .assignment binding.1 value) ∧ binding.2 = (visit.2.eval visit.1).1 := by
  obtain ⟨node, t⟩ := visit
  obtain ⟨target, value⟩ := binding
  cases node with
  | assignment other inner =>
    simp only [Expr.write?, Option.some.injEq, Prod.mk.injEq, Expr.assignment.injEq,
      exists_and_left, exists_eq', and_true]
    exact and_congr_right fun _ => eq_comm
  | _ => simp [Expr.write?]

theorem writes_names_iff {visits : List (Expr × Store)} :
    name ∈ (visits.filterMap Expr.write?).map Prod.fst ↔
      ∃ visit ∈ visits, ∃ value, visit.1 = .assignment name value := by
  constructor
  · intro member
    obtain ⟨binding, listed, rfl⟩ := List.mem_map.mp member
    obtain ⟨visit, member, written⟩ := List.mem_filterMap.mp listed
    exact ⟨visit, member, (write_iff.mp written).1⟩
  · intro assigned
    obtain ⟨visit, member, assigned⟩ := assigned
    have written : Expr.write? visit = some (name, (visit.2.eval visit.1).1) :=
      write_iff.mpr ⟨assigned, rfl⟩
    exact List.mem_map.mpr ⟨_, List.mem_filterMap.mpr ⟨visit, member, written⟩, rfl⟩

theorem binds_iff_visited (s : Store) :
    e.Binds name ↔ ∃ visit ∈ e.visited s, ∃ value, visit.1 = .assignment name value := by
  rw [Expr.Binds, ← visited_nodes e s]
  constructor
  · intro binds
    obtain ⟨value, member⟩ := binds
    obtain ⟨visit, member, same⟩ := List.mem_map.mp member
    exact ⟨visit, member, value, same⟩
  · intro assigned
    obtain ⟨visit, member, value, same⟩ := assigned
    exact ⟨value, List.mem_map.mpr ⟨visit, member, same⟩⟩

theorem bound_names_iff (s : Store) :
    name ∈ (s.evaluation e).bound.map Prod.fst ↔ e.Binds name := by
  rw [evaluation_bound, writes_names_iff, ← binds_iff_visited]

theorem latest_bound_none_iff (s : Store) :
    latest? name (s.evaluation e).bound = none ↔ ¬ e.Binds name := by
  rw [latest_none_iff, bound_names_iff]

theorem exists_last {α : Type} {P : α → Prop} {xs : List α} (some : ∃ x ∈ xs, P x) :
    ∃ before x after, xs = before ++ x :: after ∧ P x ∧ ∀ y ∈ after, ¬ P y := by
  induction xs with
  | nil => simp at some
  | cons x xs ih =>
    by_cases later : ∃ y ∈ xs, P y
    · obtain ⟨before, y, after, rfl, holds, last⟩ := ih later
      exact ⟨x :: before, y, after, rfl, holds, last⟩
    · have none : ∀ y ∈ xs, ¬ P y := by simpa using later
      have holds : P x := by
        obtain ⟨y, member, holds⟩ := some
        rcases List.mem_cons.mp member with rfl | member
        · exact holds
        · exact absurd holds (none y member)
      exact ⟨[], x, xs, rfl, holds, none⟩

theorem binding_last {before after : List (Expr × Store)} {value : Expr} {t : Store}
    (split : e.visited s = before ++ (.assignment name value, t) :: after)
    (last : ∀ visit ∈ after, ¬ ∃ other, visit.1 = .assignment name other) :
    (s.eval e).2.binding? name = some (t.eval (.assignment name value)).1 := by
  have later : latest? name (after.filterMap Expr.write?) = none := by
    rw [latest_none_iff, writes_names_iff]
    intro assigned
    obtain ⟨visit, member, other⟩ := assigned
    exact last visit member other
  have bound : (s.evaluation e).bound = before.filterMap Expr.write? ++
      ([(name, (t.eval (.assignment name value)).1)] ++ after.filterMap Expr.write?) := by
    simp [evaluation_bound, split, Expr.write?]
  rw [Store.eval, evaluation_store, binding_setAll, bound, latest_append, latest_append, later,
    latest_single]
  simp

/-- Evaluating a tree binds the names that it assigns and no others. A name that it does not assign
    stays as it was, bound or not; one that it assigns has the value of the assignment of it that comes
    last in postorder, evaluated from the store with which the machine comes to it. Without an
    assignment the store stays the same, and evaluating again gives the same value. -/
theorem eval_changes_assigned (s : Store) (e : Expr) :
    (∀ name, (s.eval e).2.contains name = true ↔ s.contains name = true ∨ e.Binds name) ∧
    (∀ name, ¬ e.Binds name → (s.eval e).2.binding? name = s.binding? name) ∧
    (∀ name, e.Binds name → ∃ before value t after,
      e.visited s = before ++ (.assignment name value, t) :: after ∧
      (∀ visit ∈ after, ¬ ∃ other, visit.1 = .assignment name other) ∧
      (s.eval e).2.binding? name = some (t.eval (.assignment name value)).1) ∧
    ((e.visited s).map Prod.fst = e.postorder ∧ ∀ node t, (node, t) ∈ e.visited s →
      ∃ tasks values bound,
        (Machine.start s e).Reaches ⟨.visit node :: tasks, values, t, bound⟩) ∧
    ((∀ name, ¬ e.Binds name) → (s.eval e).2 = s ∧ (s.eval e).2.eval e = s.eval e) := by
  have store : (s.eval e).2 = s.setAll (s.evaluation e).bound := evaluation_store s e
  refine ⟨?_, ?_, ?_, ?_, ?_⟩
  · intro name
    rw [store, contains_setAll, bound_names_iff]
  · intro name kept
    rw [store, binding_setAll, (latest_bound_none_iff s).mpr kept, Option.none_or]
  · intro name binds
    obtain ⟨before, ⟨node, t⟩, after, split, ⟨value, rfl⟩, last⟩ :=
      exists_last ((binds_iff_visited s).mp binds)
    exact ⟨before, value, t, after, split, last, binding_last split last⟩
  · refine ⟨visited_nodes e s, ?_⟩
    intro node t visit
    exact visited_reached e [] [] s [] visit
  · intro none
    have unbound : (s.evaluation e).bound = [] := by
      apply List.eq_nil_iff_forall_not_mem.mpr
      intro binding member
      exact none binding.1 ((bound_names_iff s).mp (List.mem_map_of_mem member))
    have same : (s.eval e).2 = s := by
      rw [store, unbound]
      rfl
    exact ⟨same, by rw [same]⟩

end Calculator
