import Calculator.Proofs.Assignments

/- What the evaluation of a tree depends on: the names that it reads before it assigns them. Two runs from
   stores that agree on these go on alike, whatever else the stores hold. -/
namespace Calculator

/-- Some node reads the name, and no assignment of it is done before that. -/
def Expr.ReadsFirst (e : Expr) (name : String) : Prop :=
  ∃ before after, e.postorder = before ++ .name name :: after ∧
    ∀ value, .assignment name value ∉ before

/-- The tree has the same value from both stores and makes the same bindings, in the same order, so that
    the names it binds end up with the same values. -/
structure Expr.Alike (e : Expr) (s t : Store) : Prop where
  value : (s.eval e).1 = (t.eval e).1
  bound : (s.evaluation e).bound = (t.evaluation e).bound
  left : ∀ name, e.Binds name → (s.eval e).2.binding? name = (t.eval e).2.binding? name

variable {e inner : Expr} {s t : Store} {name : String}

theorem readsFirst_within {before after : List Expr}
    (order : e.postorder = before ++ (inner.postorder ++ after))
    (spared : ∀ value, .assignment name value ∉ before) (reads : inner.ReadsFirst name) :
    e.ReadsFirst name := by
  obtain ⟨earlier, later, split, unassigned⟩ := reads
  refine ⟨before ++ earlier, later ++ after, by simp [order, split], ?_⟩
  intro value member
  rcases List.mem_append.mp member with outside | within
  · exact spared value outside
  · exact unassigned value within

theorem readsFirst_first {after : List Expr} (order : e.postorder = inner.postorder ++ after)
    (reads : inner.ReadsFirst name) : e.ReadsFirst name := by
  have order : e.postorder = [] ++ (inner.postorder ++ after) := order
  exact readsFirst_within order (by simp) reads

theorem get_evaluation (s : Store) (e : Expr) (name : String) :
    (s.evaluation e).store.get name =
      (latest? name (s.evaluation e).bound).getD (s.get name) := by
  rw [evaluation_store, get_setAll]

theorem evaluation_congr (agree : ∀ name, e.ReadsFirst name → s.get name = t.get name) :
    (s.evaluation e).value = (t.evaluation e).value ∧
      (s.evaluation e).bound = (t.evaluation e).bound := by
  induction e generalizing s t with
  | number x => simp [evaluation_number]
  | name text =>
    have read : (Expr.name text).ReadsFirst text := ⟨[], [], rfl, by simp⟩
    simp [evaluation_name, agree text read]
  | negation e ih =>
    obtain ⟨value, bound⟩ := ih fun name reads => agree name (readsFirst_first rfl reads)
    simp [evaluation_negation, value, bound]
  | binary op l r ihl ihr =>
    obtain ⟨left, bound⟩ := ihl fun name reads => agree name (readsFirst_first rfl reads)
    have after : ∀ name, r.ReadsFirst name →
        (s.evaluation l).store.get name = (t.evaluation l).store.get name := by
      intro name reads
      rw [get_evaluation, get_evaluation, bound]
      -- what the left operand binds is alike, what it does not bind is as it was before
      cases written : latest? name (t.evaluation l).bound with
      | some value => rfl
      | none =>
        have spared : ¬ l.Binds name := (latest_bound_none_iff t).mp written
        exact agree name (readsFirst_within rfl (not_exists.mp spared) reads)
    obtain ⟨right, bound'⟩ := ihr after
    simp [evaluation_binary, left, right, bound, bound']
  | assignment target e ih =>
    obtain ⟨value, bound⟩ := ih fun name reads => agree name (readsFirst_first rfl reads)
    simp [evaluation_assignment, value, bound]

theorem alike_of_agree (agree : ∀ name, e.ReadsFirst name → s.get name = t.get name) :
    e.Alike s t := by
  obtain ⟨value, bound⟩ := evaluation_congr agree
  refine ⟨value, bound, ?_⟩
  intro name binds
  have written : latest? name (t.evaluation e).bound ≠ none := by
    simpa [latest_bound_none_iff] using binds
  obtain ⟨value, written⟩ := Option.ne_none_iff_exists'.mp written
  simp [Store.eval, evaluation_store, binding_setAll, bound, written]

/-- A tree is evaluated alike from stores that agree on the names it reads before it assigns them. So a
    name bound to zero is as good as one that is not bound, and what other names are bound to does not
    matter. -/
theorem eval_depends_on_first_reads (e : Expr) :
    (∀ s t, (∀ name, e.ReadsFirst name → s.get name = t.get name) → e.Alike s t) ∧
    (∀ s name, s.contains name = false → e.Alike s (s.set name 0)) ∧
    (∀ s name value, ¬ e.ReadsFirst name → e.Alike s (s.set name value)) := by
  refine ⟨fun s t agree => alike_of_agree agree, ?_, ?_⟩
  · intro s name unbound
    apply alike_of_agree
    intro other _
    by_cases same : name = other
    · rw [get_set, if_pos same, ← same, get_unbound unbound]
    · rw [get_set, if_neg same]
  · intro s name value unread
    apply alike_of_agree
    intro other reads
    have apart : name ≠ other := by
      rintro rfl
      exact unread reads
    rw [get_set, if_neg apart]

/-- In `(x = y) + x` what `x` was before is overwritten, and `y` may be zero or not bound. -/
theorem eval_depends_on_first_reads_overwritten :
    let e : Expr := .binary .add (.assignment "x" (.name "y")) (.name "x")
    let s := Store.fresh.set "x" 1
    let t := (Store.fresh.set "x" 2).set "y" 0
    (∀ name, e.ReadsFirst name → s.get name = t.get name) ∧ e.Alike s t := by
  intro e s t
  have agree : ∀ name, e.ReadsFirst name → s.get name = t.get name := by
    intro name reads
    obtain ⟨before, after, split, spared⟩ := reads
    have first : name = "y" := by
      change [Expr.name "y", .assignment "x" (.name "y"), .name "x", _] = _ at split
      rcases before with _ | ⟨a, _ | ⟨b, _ | ⟨c, _ | ⟨d, rest⟩⟩⟩⟩ <;> simp at split
      · exact split.1.symm
      · -- the name after the operator is read when the assignment is done
        obtain ⟨-, rfl, rfl, -⟩ := split
        exact absurd (by simp) (spared (.name "y"))
    subst first
    simp [s, t, get_set, get_fresh]
  exact ⟨agree, (eval_depends_on_first_reads e).1 s t agree⟩

end Calculator
