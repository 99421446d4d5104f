import Calculator.Proofs.Dependence
import Calculator.Proofs.Ledger

/- Lines of which none assigns what another one reads or assigns. They may be entered in any order: each
   has the reply that it would have on its own, and only the last value tells the order. -/
namespace Calculator

def Expr.names : Expr → List String
  | .number _ => []
  | .name text => [text]
  | .negation e | .assignment _ e => e.names
  | .binary _ l r => l.names ++ r.names

def Expr.target? : Expr → Option String
  | .assignment target _ => some target
  | _ => none

def tree? (line : String) : Option Expr :=
  match reading? line with
  | some (.ok e) => some e
  | _ => none

def namesRead (line : String) : List String := (tree? line).elim [] Expr.names

def nameAssigned? (line : String) : Option String := (tree? line).bind Expr.target?

def Spares (a b : String) : Prop :=
  ∀ name ∈ nameAssigned? a, name ∉ namesRead b ∧ nameAssigned? b ≠ some name

structure Independent (lines : List String) : Prop where
  last : ∀ line ∈ lines, lastName ∉ namesRead line ∧ nameAssigned? line ≠ some lastName
  apart : lines.Pairwise fun a b => Spares a b ∧ Spares b a

variable {line name : String} {lines order : List String} {e : Expr}

theorem names_of_postorder (member : .name name ∈ e.postorder) : name ∈ e.names := by
  induction e with
  | number x => simp [Expr.postorder] at member
  | name text => simpa [Expr.postorder, Expr.names] using member
  | negation e ih | assignment target e ih => exact ih (by simpa [Expr.postorder] using member)
  | binary op l r ihl ihr =>
    simp only [Expr.postorder, List.mem_append, List.mem_singleton, reduceCtorEq, or_false] at member
    rcases member with left | right
    · exact List.mem_append_left _ (ihl left)
    · exact List.mem_append_right _ (ihr right)

theorem meaning_congr {s t : Store} (agree : ∀ name ∈ e.names, s.get name = t.get name) :
    (e.meaning s).1 = (e.meaning t).1 := by
  have first : ∀ name, e.ReadsFirst name → s.get name = t.get name := by
    intro name reads
    obtain ⟨before, after, order, -⟩ := reads
    exact agree name (names_of_postorder (by simp [order]))
  simpa only [evaluation_eq] using (evaluation_congr first).1

theorem tree_some_iff : tree? line = some e ↔ reading? line = some (.ok e) := by
  unfold tree?
  rcases reading? line with _ | error | other <;> simp

theorem tree_forms (accepted : tree? line = some e) :
    (e.Operands fun _ => True) ∨
    ∃ name value, e = .assignment name value ∧ value.Operands fun _ => True := by
  have read := tree_some_iff.mp accepted
  unfold reading? at read
  split at read
  · cases read
  · rcases ofTokens_forms (Option.some.inj read) with ⟨-, bare⟩ | ⟨name, rest, value, -, same, bare⟩
    · exact .inl bare
    · exact .inr ⟨name, value, same, bare⟩

theorem enter_some (accepted : tree? line = some e) (s : Session) :
    (s.enter line).reply = .accepted (e.meaning s.store).1 ∧
    (s.enter line).session.store = (e.meaning s.store).2.set lastName (e.meaning s.store).1 := by
  rw [enter_eq, tree_some_iff.mp accepted]
  exact ⟨rfl, rfl⟩

theorem enter_none (refused : tree? line = none) (s : Session) :
    (s.enter line).session = s ∧ (s.enter line).reply.value? = none ∧
    ∀ t : Session, (t.enter line).reply = (s.enter line).reply := by
  simp only [enter_eq]
  rcases read : reading? line with _ | error | e
  · exact ⟨rfl, rfl, fun _ => rfl⟩
  · exact ⟨rfl, rfl, fun _ => rfl⟩
  · simp [tree_some_iff.mpr read] at refused

theorem enter_reply_congr {s t : Session}
    (agree : ∀ name ∈ namesRead line, s.store.get name = t.store.get name) :
    (s.enter line).reply = (t.enter line).reply := by
  cases accepted : tree? line with
  | none => exact (enter_none accepted t).2.2 s
  | some e =>
    have agree : ∀ name ∈ e.names, s.store.get name = t.store.get name := by
      simpa [namesRead, accepted] using agree
    have value : (e.meaning s.store).1 = (e.meaning t.store).1 := meaning_congr agree
    rw [(enter_some accepted s).1, (enter_some accepted t).1, value]

theorem enter_binding (other : name ≠ lastName) (s : Session) :
    (s.enter line).session.store.binding? name =
      if nameAssigned? line = some name then (s.enter line).reply.value?
      else s.store.binding? name := by
  cases accepted : tree? line with
  | none => simp [enter_none accepted, nameAssigned?, accepted]
  | some e =>
    obtain ⟨reply, store⟩ := enter_some accepted s
    rw [reply, store, binding_set, if_neg (Ne.symm other)]
    -- only the root of a tree assigns, so the store below it is the one that the line began with
    rcases tree_forms accepted with bare | ⟨target, value, same, bare⟩
    · have plain : e.target? = none := by
        cases e with
        | assignment target value => cases bare
        | _ => rfl
      simp [nameAssigned?, accepted, plain, operands_store bare]
    · subst same
      simp [nameAssigned?, accepted, Expr.target?, meaning_assignment, operands_store bare, binding_set,
        Reply.value?]

theorem enter_last (s : Session) :
    (s.enter line).session.store.get lastName =
      (s.enter line).reply.value?.getD (s.store.get lastName) := by
  cases accepted : tree? line with
  | none => simp [enter_none accepted]
  | some e =>
    obtain ⟨reply, store⟩ := enter_some accepted s
    simp [reply, store, get_set, Reply.value?]

theorem reply_after {a b : String} (spares : Spares a b) (unread : lastName ∉ namesRead b)
    (s : Session) : ((s.enter a).session.enter b).reply = (s.enter b).reply := by
  apply enter_reply_congr
  intro name read
  have other : name ≠ lastName := by
    intro same
    exact unread (same ▸ read)
  have free : nameAssigned? a ≠ some name := by
    intro assigned
    exact (spares name assigned).1 read
  rw [get_eq_binding, get_eq_binding, enter_binding other, if_neg free]

theorem independent_tail (apart : Independent (line :: lines)) : Independent lines where
  last := fun line member => apart.last line (List.mem_cons_of_mem _ member)
  apart := apart.apart.tail

theorem independent_perm (permuted : order.Perm lines) (apart : Independent lines) :
    Independent order where
  last := fun line member => apart.last line (permuted.mem_iff.mp member)
  apart := (permuted.pairwise_iff fun spares => spares.symm).mpr apart.apart

theorem rest_after (apart : Independent (line :: lines)) (s : Session) {other : String}
    (member : other ∈ lines) : ((s.enter line).session.enter other).reply = (s.enter other).reply :=
  reply_after ((List.pairwise_cons.mp apart.apart).1 other member).1
    (apart.last other (List.mem_cons_of_mem _ member)).1 s

theorem replies_eq (apart : Independent lines) (s : Session) :
    (s.turns lines).map Turn.reply = lines.map fun line => (s.enter line).reply := by
  induction lines generalizing s with
  | nil => rfl
  | cons line rest ih =>
    have later : ∀ other ∈ rest, ((s.enter line).session.enter other).reply = (s.enter other).reply :=
      fun other member => rest_after apart s member
    simpa [Session.turns, ih (independent_tail apart)] using later

theorem binding_spared (other : name ≠ lastName)
    (spared : ∀ line ∈ lines, nameAssigned? line ≠ some name) (s : Session) :
    (s.enterAll lines).store.binding? name = s.store.binding? name := by
  induction lines generalizing s with
  | nil => rfl
  | cons line rest ih =>
    rw [enterAll_cons, ih fun line member => spared line (List.mem_cons_of_mem _ member),
      enter_binding other, if_neg (spared line (List.mem_cons_self ..))]

theorem binding_assigned (apart : Independent lines) (member : line ∈ lines)
    (assigned : nameAssigned? line = some name) (s : Session) :
    (s.enterAll lines).store.binding? name = (s.enter line).reply.value? := by
  have other : name ≠ lastName := by
    intro same
    exact (apart.last line member).2 (same ▸ assigned)
  induction lines generalizing s with
  | nil => cases member
  | cons first rest ih =>
    have spared := (List.pairwise_cons.mp apart.apart).1
    rw [enterAll_cons]
    rcases List.mem_cons.mp member with same | later
    · subst same
      rw [binding_spared other fun b member => ((spared b member).1 name assigned).2,
        enter_binding other, if_pos assigned]
    · rw [ih (independent_tail apart) later, rest_after apart s later]

theorem last_eq (lines : List String) (s : Session) :
    (s.enterAll lines).store.get lastName =
      ((s.turns lines).filterMap (·.reply.value?)).getLast?.getD (s.store.get lastName) := by
  induction lines generalizing s with
  | nil => rfl
  | cons line rest ih =>
    rw [enterAll_cons, ih, enter_last, Session.turns, List.filterMap_cons]
    cases (s.enter line).reply.value? <;> simp [List.getLast?_cons]

/-- In every order of independent lines each line has the reply that it has when it comes first, all
    names but the last value's end up bound alike, and the last value is that of the accepted line
    that came last, if there was one. -/
theorem independent_lines_commute (s : Session) (apart : Independent lines)
    (permuted : order.Perm lines) :
    (s.turns order).map Turn.reply = order.map (fun line => (s.enter line).reply) ∧
    (∀ name, name ≠ lastName →
      (s.enterAll order).store.get name = (s.enterAll lines).store.get name ∧
      (s.enterAll order).store.contains name = (s.enterAll lines).store.contains name) ∧
    (s.enterAll order).store.get lastName =
      ((s.turns order).filterMap (·.reply.value?)).getLast?.getD (s.store.get lastName) := by
  have apartOrder := independent_perm permuted apart
  refine ⟨replies_eq apartOrder s, ?_, last_eq order s⟩
  intro name other
  have same : (s.enterAll order).store.binding? name = (s.enterAll lines).store.binding? name := by
    by_cases assigned : ∃ line ∈ lines, nameAssigned? line = some name
    · obtain ⟨line, member, assigned⟩ := assigned
      rw [binding_assigned apart member assigned,
        binding_assigned apartOrder (permuted.mem_iff.mpr member) assigned]
    · have spared : ∀ line ∈ lines, nameAssigned? line ≠ some name := by simpa using assigned
      rw [binding_spared other spared,
        binding_spared other fun line member => spared line (permuted.mem_iff.mp member)]
  simp [get_eq_binding, contains_eq_binding, same]

theorem independent_lines_commute_assignment :
    let order := ["b * c", "x = a"]
    Independent ["x = a", "b * c"] ∧
    (Session.fresh.turns order).map Turn.reply =
      order.map (fun line => (Session.fresh.enter line).reply) ∧
    (Session.fresh.enterAll order).store.get "x" =
      (Session.fresh.enterAll ["x = a", "b * c"]).store.get "x" := by
  intro order
  have product : tree? "b * c" = some (.binary .mul (.name "b") (.name "c")) := by
    have read : Expr.ofTokens (lex "b * c") = .ok (.binary .mul (.name "b") (.name "c")) := by
      rw [lex, scan_start, ofTokens_eq]
      rfl
    rw [tree?, reading?, read]
    rfl
  have assignment : tree? "x = a" = some (.assignment "x" (.name "a")) := by
    have read : Expr.ofTokens (lex "x = a") = .ok (.assignment "x" (.name "a")) := by
      rw [lex, scan_start, ofTokens_eq]
      rfl
    rw [tree?, reading?, read]
    rfl
  have apart : Independent ["x = a", "b * c"] := by
    constructor <;>
      simp [Spares, namesRead, nameAssigned?, product, assignment, Expr.names, Expr.target?, lastName]
  have permuted : order.Perm ["x = a", "b * c"] := .swap ..
  obtain ⟨replies, others, -⟩ := independent_lines_commute Session.fresh apart permuted
  exact ⟨apart, replies, (others "x" (by decide)).1⟩

end Calculator
