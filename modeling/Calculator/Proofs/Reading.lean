import Calculator.Proofs.Machine

/- The reader as a relation on tokens, with the offsets left out: which tokens it takes, before
   which it stops, and which lists of tokens it reads to the end of a line. -/
namespace Calculator

def tokensOf (ts : List Placed) : List Token := ts.map Placed.token

/-- One token is taken while at most `limit` parentheses may be open. -/
inductive Takes (goal : Goal) (limit : Nat) : State → Token → State → Prop where
  | sign {sum product : Waiting} {outer : List Level} :
      Takes goal limit (.before ⟨sum, product, false⟩ outer) .minus
        (.before ⟨sum, product, true⟩ outer)
  | group {level : Level} {outer : List Level} (room : outer.length < limit) :
      Takes goal limit (.before level outer) .openParen (.before .empty (level :: outer))
  | operand {level : Level} {outer : List Level} {text : String} {e : Expr}
      (read : Expr.ofWord text = .ok e) :
      Takes goal limit (.before level outer) (.word text) (level.accept outer e)
  | close {sum : Waiting} {term : Expr} {level : Level} {outer : List Level} :
      Takes goal limit (.after sum term (level :: outer)) .closeParen
        (level.accept outer (sum.join term))
  | product {sum : Waiting} {term : Expr} {outer : List Level} {t : Token} {op : BinaryOp}
      (sign : t.operator? = some op) (tight : op.isProduct = true) :
      Takes goal limit (.after sum term outer) t (.before ⟨sum, some (term, op), false⟩ outer)
  | sum {sum : Waiting} {term : Expr} {outer : List Level} {t : Token} {op : BinaryOp}
      (sign : t.operator? = some op) (loose : op.isProduct = false)
      (inside : goal = .term → outer ≠ []) :
      Takes goal limit (.after sum term outer) t
        (.before ⟨some (sum.join term, op), none, false⟩ outer)

inductive Reads (goal : Goal) (limit : Nat) : State → List Token → State → Prop where
  | nil (s : State) : Reads goal limit s [] s
  | cons {s mid last : State} {t : Token} {ts : List Token}
      (first : Takes goal limit s t mid) (rest : Reads goal limit mid ts last) :
      Reads goal limit s (t :: ts) last

def Goal.EndsAt (goal : Goal) (t : Token) : Prop :=
  t ≠ .openParen ∧ ∀ op, t.operator? = some op → goal = .term ∧ op.isProduct = false

/-- How a token is refused: whether it counts as read, and for what fault. -/
inductive Refuses (t : Placed) : Bool → Fault → Prop where
  | operand : Refuses t false (.unexpectedToken t.token.lexeme)
  | word {text : String} {fault : Fault} (word : t.token = .word text)
      (failed : Expr.ofWord text = .error fault) : Refuses t true fault
  | deep (paren : t.token = .openParen) : Refuses t true (.nestedTooDeeply maxDepth)
  | opening : Refuses t false .unexpectedOpenParen
  | unclosed : Refuses t false .missingCloseParen

def State.complete? : State → Option Expr
  | .after sum term [] => some (sum.join term)
  | _ => none

def Whole (limit : Nat) (ts : List Token) (e : Expr) : Prop :=
  ∃ last, Reads .expression limit .start ts last ∧ last.complete? = some e

variable {goal : Goal} {base limit column : Nat}

theorem feed_take_iff {s next : State} {t : Placed} :
    s.feed goal base t = .take next ↔ Takes goal (maxDepth - base) s t.token next := by
  obtain ⟨token, offset⟩ := t
  constructor
  · intro fed
    cases s with
    | before level outer =>
      obtain ⟨sum, product, negated⟩ := level
      cases token with
      | minus =>
        cases negated <;> simp only [State.feed, Bool.false_eq_true, ↓reduceIte, reduceCtorEq] at fed
        obtain rfl := Step.take.inj fed
        exact .sign
      | openParen =>
        simp only [State.feed] at fed
        split at fed
        · cases fed
        · obtain rfl := Step.take.inj fed
          exact .group (by omega)
      | word text =>
        simp only [State.feed] at fed
        split at fed
        · rename_i e read
          obtain rfl := Step.take.inj fed
          exact .operand read
        · cases fed
      | _ => cases fed
    | after sum term outer =>
      cases token with
      | openParen => cases fed
      | closeParen =>
        cases outer with
        | nil => cases fed
        | cons level outer =>
          obtain rfl := Step.take.inj fed
          exact .close
      | star | slash =>
        obtain rfl := Step.take.inj fed
        exact .product rfl rfl
      | plus | minus =>
        simp only [State.feed, Token.operator?, BinaryOp.isProduct, Bool.false_eq_true, ↓reduceIte] at fed
        split at fed
        · cases fed
        · rename_i inside
          obtain rfl := Step.take.inj fed
          exact .sum rfl rfl (by simpa using inside)
      | _ =>
        simp only [State.feed, Token.operator?] at fed
        split at fed <;> cases fed
  · intro taken
    cases taken with
    | sign => rfl
    | group room =>
      have := Nat.lt_sub_iff_add_lt'.mp room
      simp [State.feed]
      omega
    | operand read => simp [State.feed, read]
    | close => rfl
    | product sign tight => cases token <;> simp_all [State.feed, Token.operator?]
    | sum sign loose inside => cases token <;> simp_all [State.feed, Token.operator?]

theorem feed_stop_iff {s : State} {t : Placed} {e : Expr} :
    s.feed goal base t = .stop e ↔ s.complete? = some e ∧ goal.EndsAt t.token := by
  obtain ⟨token, offset⟩ := t
  cases s with
  | before level outer =>
    simp only [State.feed, State.complete?, reduceCtorEq, false_and]
    repeat' split
    all_goals simp
  | after sum term outer =>
    cases token <;> cases outer <;> cases goal <;>
      simp [State.feed, State.complete?, Goal.EndsAt, Token.operator?, BinaryOp.isProduct]

theorem feed_refuse {s : State} {t : Placed} {counted : Bool} {error : LineError}
    (fed : s.feed goal base t = .refuse counted error) :
    error.column = t.column ∧ Refuses t counted error.fault := by
  obtain ⟨token, offset⟩ := t
  cases s with
  | before level outer =>
    cases token with
    | minus =>
      simp only [State.feed] at fed
      split at fed <;> cases fed
      exact ⟨rfl, .operand⟩
    | openParen =>
      simp only [State.feed] at fed
      split at fed <;> cases fed
      exact ⟨rfl, .deep rfl⟩
    | word text =>
      simp only [State.feed] at fed
      split at fed
      · cases fed
      · rename_i fault failed
        cases fed
        exact ⟨rfl, .word rfl failed⟩
    | _ =>
      cases fed
      exact ⟨rfl, .operand⟩
  | after sum term outer =>
    cases token with
    | openParen =>
      cases fed
      exact ⟨rfl, .opening⟩
    | _ =>
      cases outer <;> cases goal <;>
        simp [State.feed, Token.operator?, BinaryOp.isProduct] at fed <;>
        obtain ⟨rfl, rfl⟩ := fed <;>
        exact ⟨rfl, .unclosed⟩

theorem reads_append {s mid last : State} {ts us : List Token}
    (first : Reads goal limit s ts mid) (second : Reads goal limit mid us last) :
    Reads goal limit s (ts ++ us) last := by
  induction first with
  | nil => exact second
  | cons step rest ih => exact .cons step (ih second)

theorem reads_single {s next : State} {t : Token} (taken : Takes goal limit s t next) :
    Reads goal limit s [t] next :=
  .cons taken (.nil next)

theorem takes_unique {s first second : State} {t : Token} (one : Takes goal limit s t first)
    (other : Takes goal limit s t second) : first = second := by
  cases one <;> cases other <;> simp_all [Token.operator?]

theorem reads_unique {s first second : State} {ts : List Token}
    (one : Reads goal limit s ts first) (other : Reads goal limit s ts second) :
    first = second := by
  induction one with
  | nil => cases other; rfl
  | cons step rest ih =>
    cases other with
    | cons step' rest' =>
      obtain rfl := takes_unique step step'
      exact ih rest'

theorem reads_cons_iff {s last : State} {t : Token} {ts : List Token} :
    Reads goal limit s (t :: ts) last ↔
      ∃ mid, Takes goal limit s t mid ∧ Reads goal limit mid ts last := by
  constructor
  · intro reads
    cases reads with
    | cons first rest => exact ⟨_, first, rest⟩
  · intro steps
    obtain ⟨mid, first, rest⟩ := steps
    exact .cons first rest

theorem reads_append_iff {s last : State} {ts us : List Token} :
    Reads goal limit s (ts ++ us) last ↔
      ∃ mid, Reads goal limit s ts mid ∧ Reads goal limit mid us last := by
  constructor
  · intro reads
    induction ts generalizing s with
    | nil => exact ⟨s, .nil s, reads⟩
    | cons t ts ih =>
      cases reads with
      | cons step rest =>
        obtain ⟨mid, first, second⟩ := ih rest
        exact ⟨mid, .cons step first, second⟩
  · intro parts
    obtain ⟨mid, first, second⟩ := parts
    exact reads_append first second

theorem takes_ne_equals {s next : State} {t : Token} (taken : Takes goal limit s t next) :
    t ≠ .equals := by
  cases taken with
  | product sign tight | sum sign loose inside =>
    intro same
    subst same
    cases sign
  | _ => simp

theorem equals_not_mem_of_reads {s last : State} {ts : List Token}
    (reads : Reads goal limit s ts last) : .equals ∉ ts := by
  induction reads with
  | nil => simp
  | cons step rest ih => simp [ih, (takes_ne_equals step).symm]

theorem takes_within {s next : State} {t : Token} (taken : Takes goal limit s t next)
    (within : s.depth ≤ limit) : next.depth ≤ limit := by
  cases taken with
  | group room => exact room
  | close => exact Nat.le_of_succ_le within
  | _ => exact within

theorem read_taken {s last : State} {ts rest : List Placed}
    (taken : Reads goal (maxDepth - base) s (tokensOf ts) last) :
    s.read goal base column (ts ++ rest) = last.read goal base column rest := by
  induction ts generalizing s with
  | nil => cases taken; rfl
  | cons t ts ih =>
    cases taken with
    | cons first others =>
      rw [List.cons_append, State.read, feed_take_iff.mpr first]
      exact ih others

theorem depth_of_complete {s : State} {e : Expr} (whole : s.complete? = some e) : s.depth = 0 := by
  cases s with
  | before level outer => cases whole
  | after sum term outer =>
    cases outer with
    | nil => rfl
    | cons level outer => cases whole

theorem read_complete {s : State} {ts : List Placed} {e : Expr} (whole : s.complete? = some e)
    (ends : ∀ t ∈ ts.head?, goal.EndsAt t.token) :
    s.read goal base column ts = ⟨.ok e, ts, base⟩ := by
  cases ts with
  | nil =>
    cases s with
    | before level outer => cases whole
    | after sum term outer =>
      cases outer with
      | nil => obtain rfl := Option.some.inj whole; rfl
      | cons level outer => cases whole
  | cons t ts =>
    have stop : s.feed goal base t = .stop e := feed_stop_iff.mpr ⟨whole, ends t rfl⟩
    simp [State.read, stop, depth_of_complete whole]

theorem read_ok_iff {s : State} {ts rest : List Placed} {e : Expr} {depth : Nat} :
    s.read goal base column ts = ⟨.ok e, rest, depth⟩ ↔
      ∃ taken last, ts = taken ++ rest ∧ Reads goal (maxDepth - base) s (tokensOf taken) last ∧
        last.complete? = some e ∧ depth = base ∧ ∀ t ∈ rest.head?, goal.EndsAt t.token := by
  constructor
  · intro read
    induction ts generalizing s with
    | nil =>
      cases s with
      | before level outer => simp [State.read, State.finish] at read
      | after sum term outer =>
        cases outer with
        | nil =>
          simp only [State.read, State.finish, State.depth, Reading.mk.injEq, Except.ok.injEq] at read
          obtain ⟨rfl, rfl, rfl⟩ := read
          exact ⟨[], _, rfl, .nil _, rfl, rfl, by simp⟩
        | cons level outer => simp [State.read, State.finish] at read
    | cons t ts ih =>
      rw [State.read] at read
      cases fed : s.feed goal base t with
      | take next =>
        rw [fed] at read
        obtain ⟨taken, last, rfl, reads, whole, same, ends⟩ := ih read
        exact ⟨t :: taken, last, rfl, .cons (feed_take_iff.mp fed) reads, whole, same, ends⟩
      | stop e' =>
        rw [fed] at read
        obtain ⟨whole, ends⟩ := feed_stop_iff.mp fed
        have closed := depth_of_complete whole
        simp only [Reading.mk.injEq, Except.ok.injEq] at read
        obtain ⟨rfl, rfl, rfl⟩ := read
        exact ⟨[], s, rfl, .nil s, whole, by omega, by simpa using ends⟩
      | refuse counted error =>
        rw [fed] at read
        simp at read
  · intro completed
    obtain ⟨taken, last, rfl, reads, whole, rfl, ends⟩ := completed
    rw [read_taken reads]
    exact read_complete whole ends

def Reading.atEnd (r : Reading) : Except LineError Expr :=
  match r.result, r.rest with
  | .error error, _ => .error error
  | .ok e, [] => .ok e
  | .ok _, t :: _ => .error ⟨.trailingTokens t.token.lexeme, t.column⟩

theorem atEnd_eq_ok_iff {r : Reading} {e : Expr} :
    r.atEnd = .ok e ↔ r.result = .ok e ∧ r.rest = [] := by
  obtain ⟨result, rest, depth⟩ := r
  cases result <;> cases rest <;> simp [Reading.atEnd]

theorem whole_iff {ts : List Placed} {e : Expr} :
    (State.start.read .expression base column ts).atEnd = .ok e ↔
      Whole (maxDepth - base) (tokensOf ts) e := by
  rw [atEnd_eq_ok_iff]
  constructor
  · intro ends
    obtain ⟨ok, done⟩ := ends
    obtain ⟨taken, last, split, reads, whole, -, -⟩ := read_ok_iff.mp
      (show State.start.read .expression base column ts = ⟨.ok e, [], _⟩ by rw [← ok, ← done])
    rw [List.append_nil] at split
    exact ⟨last, split ▸ reads, whole⟩
  · intro accepted
    obtain ⟨last, reads, whole⟩ := accepted
    have read : State.start.read .expression base column ts = ⟨.ok e, [], base⟩ :=
      read_ok_iff.mpr ⟨ts, last, (List.append_nil ts).symm, reads, whole, rfl, by simp⟩
    simp [read]

end Calculator
