import Std.Data.ExtTreeMap

/- Variables and their values. A name that is not bound reads as zero, and reading binds nothing. -/
namespace Calculator

/-- The name that holds the value of the last accepted line. -/
def lastName : String := "last"

structure Store where
  bindings : Std.ExtTreeMap String Float

def Store.get (s : Store) (name : String) : Float := s.bindings.getD name 0

def Store.set (s : Store) (name : String) (value : Float) : Store := ⟨s.bindings.insert name value⟩

def Store.contains (s : Store) (name : String) : Bool := s.bindings.contains name

def Store.size (s : Store) : Nat := s.bindings.size

def Store.isEmpty (s : Store) : Bool := s.bindings.isEmpty

def Store.toList (s : Store) : List (String × Float) := s.bindings.toList

def Store.fresh : Store := Store.set ⟨∅⟩ lastName 0

def Store.binding? (s : Store) (name : String) : Option Float := s.bindings[name]?

def Store.setAll (s : Store) (bindings : List (String × Float)) : Store :=
  bindings.foldl (fun s b => s.set b.1 b.2) s

theorem get_set (s : Store) (name other : String) (value : Float) :
    (s.set name value).get other = if name = other then value else s.get other := by
  simp [Store.get, Store.set, Std.ExtTreeMap.getD_insert]

theorem contains_set (s : Store) (name other : String) (value : Float) :
    (s.set name value).contains other = (decide (name = other) || s.contains other) := by
  rw [Bool.eq_iff_iff]
  simp [Store.contains, Store.set, Std.ExtTreeMap.contains_insert]

theorem binding_set (s : Store) (name other : String) (value : Float) :
    (s.set name value).binding? other = if name = other then some value else s.binding? other := by
  simp [Store.binding?, Store.set, Std.ExtTreeMap.getElem?_insert]

theorem get_eq_binding (s : Store) (name : String) : s.get name = (s.binding? name).getD 0 := by
  simp [Store.get, Store.binding?, Std.ExtTreeMap.getD_eq_getD_getElem?]

theorem contains_eq_binding (s : Store) (name : String) :
    s.contains name = (s.binding? name).isSome := by
  simp [Store.contains, Store.binding?]

theorem get_unbound {s : Store} {name : String} (unbound : s.contains name = false) :
    s.get name = 0 := by
  rw [contains_eq_binding, Option.isSome_eq_false_iff, Option.isNone_iff_eq_none] at unbound
  rw [get_eq_binding, unbound]
  rfl

theorem setAll_append (s : Store) (first rest : List (String × Float)) :
    s.setAll (first ++ rest) = (s.setAll first).setAll rest :=
  List.foldl_append ..

def latest? (name : String) (bindings : List (String × Float)) : Option Float :=
  bindings.reverse.lookup name

theorem latest_append (name : String) (first rest : List (String × Float)) :
    latest? name (first ++ rest) = (latest? name rest).or (latest? name first) := by
  simp [latest?, List.lookup_append]

theorem latest_single (name target : String) (value : Float) :
    latest? name [(target, value)] = if target = name then some value else none := by
  by_cases same : name = target
  · simp [latest?, same]
  · have apart : (name == target) = false := beq_false_of_ne same
    simp [latest?, List.lookup_cons, apart, Ne.symm same]

theorem latest_none_iff (name : String) (bindings : List (String × Float)) :
    latest? name bindings = none ↔ name ∉ bindings.map Prod.fst := by
  rw [latest?, List.lookup_eq_none_iff]
  constructor
  · intro others member
    obtain ⟨binding, listed, rfl⟩ := List.mem_map.mp member
    simpa using others binding (List.mem_reverse.mpr listed)
  · intro absent binding member
    have other : name ≠ binding.1 := by
      rintro rfl
      exact absent (List.mem_map_of_mem (List.mem_reverse.mp member))
    simpa using other

theorem binding_setAll (s : Store) (bindings : List (String × Float)) (name : String) :
    (s.setAll bindings).binding? name = (latest? name bindings).or (s.binding? name) := by
  induction bindings generalizing s with
  | nil => rfl
  | cons first rest ih =>
    obtain ⟨target, value⟩ := first
    have step : ((s.set target value).setAll rest).binding? name =
        (latest? name rest).or ((s.set target value).binding? name) := ih _
    have split : latest? name ((target, value) :: rest) =
        (latest? name rest).or (latest? name [(target, value)]) := latest_append name [_] rest
    change ((s.set target value).setAll rest).binding? name = _
    rw [step, split, latest_single, binding_set, Option.or_assoc]
    split <;> rfl

theorem get_setAll (s : Store) (bindings : List (String × Float)) (name : String) :
    (s.setAll bindings).get name = (latest? name bindings).getD (s.get name) := by
  simp only [get_eq_binding, binding_setAll]
  cases latest? name bindings <;> rfl

theorem contains_setAll (s : Store) (bindings : List (String × Float)) (name : String) :
    (s.setAll bindings).contains name = true ↔
      s.contains name = true ∨ name ∈ bindings.map Prod.fst := by
  have written : (latest? name bindings).isSome = true ↔ name ∈ bindings.map Prod.fst := by
    rw [Option.isSome_iff_ne_none, ne_eq, latest_none_iff, Decidable.not_not]
  rw [contains_eq_binding, contains_eq_binding, binding_setAll, Option.isSome_or, Bool.or_eq_true,
    written, or_comm]

theorem get_fresh (name : String) : Store.fresh.get name = 0 := by
  unfold Store.fresh
  rw [get_set]
  split <;> simp [Store.get]

theorem contains_fresh (name : String) : Store.fresh.contains name = true ↔ name = lastName := by
  unfold Store.fresh
  rw [contains_set]
  simp [Store.contains, eq_comm]

theorem not_isEmpty_of_contains {s : Store} {name : String} (bound : s.contains name = true) :
    s.isEmpty = false := by
  unfold Store.contains at bound
  unfold Store.isEmpty
  cases empty : s.bindings.isEmpty with
  | false => rfl
  | true => simp_all

/-- The same names with values equal as numbers. -/
instance : BEq Store := ⟨fun a b => a.toList == b.toList⟩

end Calculator
