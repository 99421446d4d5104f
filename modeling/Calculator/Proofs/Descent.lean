import Calculator.Line
import Calculator.Proofs.Reading

/- The descent and the machine read alike. What a function of the descent comes to is compared with the
   machine that goes on from a state at the same place: after a phrase the machine stands where the
   descent does, after an error both have broken off there. Columns are added up in any way that
   gives the columns of the machine, as far as it does not halt. -/
namespace Calculator

def Cursor.remaining (c : Cursor) : List Placed := c.tokens.toList.drop c.position

def Cursor.reading (c : Cursor) (goal : Goal) : Reading :=
  State.start.read goal c.depth c.columnAfter c.remaining

variable {ε : Type}

/-- A column as computed stands for an exact one in every error told of it, or it halts the reading. -/
def Arithmetic.Gives (A : Arithmetic ε) (turn : LineError → ε) (halts : ε → Prop)
    (computed : Except ε Nat) (column : Nat) : Prop :=
  match computed with
  | .ok n => ∀ fault, A.reject ⟨fault, n⟩ = turn ⟨fault, column⟩
  | .error stop => halts stop

/-- So do the columns of some tokens and of their end. -/
structure Arithmetic.Follows (A : Arithmetic ε) (turn : LineError → ε) (halts : ε → Prop)
    (tokens : Array Placed) : Prop where
  column : ∀ t ∈ tokens, A.Gives turn halts (A.column t) t.column
  ending : A.Gives turn halts (A.endColumn tokens.back?) (columnAfter tokens.toList)

section

variable (turn : LineError → ε) (halts : ε → Prop) (goal : Goal) (base column : Nat)

/-- What a function of the descent comes to, next to the reading of the machine from the same place. It has
    read past `place`, and the depth is `depth` again; its tree leads the machine to a state. -/
inductive Meets (reading : Reading) (place depth : Nat) (leads : Expr → State → Cursor → Prop) :
    Except ε Expr → Cursor → Prop where
  | ok {e : Expr} {next : State} {after : Cursor} (state : leads e next after)
      (further : place < after.position) (level : after.depth = depth)
      (same : reading = next.read goal base column after.remaining) :
      Meets reading place depth leads (.ok e) after
  | error {error : LineError} {after : Cursor}
      (same : reading = ⟨.error error, after.remaining, after.depth⟩) :
      Meets reading place depth leads (.error (turn error)) after
  | halt {stop : ε} {after : Cursor} (halted : halts stop) :
      Meets reading place depth leads (.error stop) after

end

variable {A : Arithmetic ε} {turn : LineError → ε} {halts : ε → Prop} {goal : Goal}
  {base column place depth : Nat} {reading : Reading} {leads : Expr → State → Cursor → Prop}
  {c after : Cursor} {t : Placed} {s next : State} {outer : List Level} {sum product : Waiting}

theorem next_eq (c : Cursor) : c.next? = c.remaining.head? := by
  simp [Cursor.next?, Cursor.remaining, List.head?_drop]

theorem step_eq (found : c.next? = some t) :
    c.step.cursor = { c with position := c.position + 1 } := by
  simp [Cursor.step, Cursor.advance, found]

theorem remaining_cons (found : c.next? = some t) :
    c.remaining = t :: c.step.cursor.remaining := by
  have inside : c.tokens.toList[c.position]? = some t := by simpa [Cursor.next?] using found
  rw [step_eq found]
  exact (List.drop_eq_getElem?_toList_append ..).trans (by simp [inside, Cursor.remaining])

theorem remaining_nil (none : c.next? = none) : c.remaining = [] := by
  rwa [next_eq, List.head?_eq_none_iff] at none

theorem mem_of_next (found : c.next? = some t) : t ∈ c.tokens :=
  Array.mem_of_getElem? found

theorem meets_fail {computed : Except ε Nat} {exact : Nat} {fault : Fault}
    (gives : A.Gives turn halts computed exact)
    (same : reading = ⟨.error ⟨fault, exact⟩, after.remaining, after.depth⟩) :
    Meets turn halts goal base column reading place depth leads (A.fail fault computed) after := by
  cases computed with
  | ok n =>
    have told : A.fail fault (.ok n) = (.error (turn ⟨fault, exact⟩) : Except ε Expr) :=
      congrArg Except.error (gives fault)
    rw [told]
    exact .error same
  | error stop => exact .halt gives

theorem meets_andThen {start : Cursor} {here : start.Onward} {part : Parse ε here.cursor}
    {go : Expr → here.cursor.Onward → Parse ε start} {place' depth' : Nat}
    {leads' : Expr → State → Cursor → Prop}
    (meets : Meets turn halts goal base column reading place' depth' leads' part.1 part.2.cursor)
    (further : ∀ e next after, leads' e next after.cursor → place' < after.cursor.position →
      after.cursor.depth = depth' → reading = next.read goal base column after.cursor.remaining →
      Meets turn halts goal base column reading place depth leads (go e after).1
        (go e after).2.cursor) :
    Meets turn halts goal base column reading place depth leads (here.andThen part go).1
      (here.andThen part go).2.cursor := by
  obtain ⟨result, after⟩ := part
  cases meets with
  | ok state beyond level read => exact further _ _ _ state beyond level read
  | error broken => exact .error broken
  | halt halted => exact .halt halted

theorem read_take (found : c.next? = some t) (fed : s.feed goal base t = .take next) :
    s.read goal base column c.remaining = next.read goal base column c.step.cursor.remaining := by
  rw [remaining_cons found, State.read, fed]

theorem read_stay {error : LineError} (found : c.next? = some t) (level : c.depth = base + s.depth)
    (fed : s.feed goal base t = .refuse false error) :
    s.read goal base column c.remaining = ⟨.error error, c.remaining, c.depth⟩ := by
  rw [remaining_cons found, State.read, fed, level]
  rfl

theorem read_step {error : LineError} (found : c.next? = some t) (level : c.depth = base + s.depth)
    (fed : s.feed goal base t = .refuse true error) :
    s.read goal base column c.remaining =
      ⟨.error error, c.step.cursor.remaining, c.step.cursor.depth⟩ := by
  have same : c.step.cursor.depth = c.depth := by rw [step_eq found]
  rw [remaining_cons found, State.read, fed, same, level]
  rfl

theorem read_end {error : LineError} (none : c.next? = none) (level : c.depth = base + s.depth)
    (finished : s.finish column = .error error) :
    s.read goal base column c.remaining = ⟨.error error, c.remaining, c.depth⟩ := by
  rw [remaining_nil none, State.read, finished, level]

section

variable (A : Arithmetic ε) (turn : LineError → ε) (halts : ε → Prop) (goal : Goal) (base : Nat)
  (tokens : Array Placed)

def Cursor.Follows (c : Cursor) (s : State) (place : Nat) (leads : Expr → State → Cursor → Prop)
    {start : Cursor} (come : Parse ε start) : Prop :=
  Meets turn halts goal base (Calculator.columnAfter tokens.toList)
    (s.read goal base (Calculator.columnAfter tokens.toList) c.remaining) place c.depth leads come.1
    come.2.cursor

/-- An expression read inside `outer` leaves a term that no operator follows. -/
def Cursor.AdditiveFollows (c : Cursor) : Prop :=
  ∀ outer : List Level, c.tokens = tokens → c.depth = base + outer.length →
    (goal = .term → outer ≠ []) →
    c.Follows turn halts goal base tokens (.before .empty outer) c.position
      (fun e next after => ∃ sum term, next = .after sum term outer ∧ sum.join term = e ∧
        ∀ t ∈ after.next?, Goal.expression.EndsAt t.token)
      (c.additive A)

end

variable {tokens : Array Placed}

theorem step_tokens (along : c.tokens = tokens) : c.step.cursor.tokens = tokens :=
  c.step.tokens.trans along

theorem step_depth (c : Cursor) : c.step.cursor.depth = c.depth := by
  simp only [Cursor.step, Cursor.advance]
  split <;> rfl

theorem next_gives (follows : A.Follows turn halts tokens) (along : c.tokens = tokens)
    (found : c.next? = some t) : A.Gives turn halts (A.column t) t.column :=
  follows.column t (along ▸ mem_of_next found)

theorem end_gives (follows : A.Follows turn halts tokens) (along : c.tokens = tokens) :
    A.Gives turn halts (A.endColumn c.tokens.back?) (columnAfter tokens.toList) := by
  rw [along]
  exact follows.ending

theorem feed_unclosed {level : Level} {term : Expr} (ends : Goal.expression.EndsAt t.token)
    (unclosed : t.token ≠ .closeParen) :
    (State.after sum term (level :: outer)).feed goal base t =
      .refuse false ⟨.missingCloseParen, t.column⟩ := by
  obtain ⟨token, offset⟩ := t
  cases token <;> simp_all [State.feed, Goal.EndsAt, Token.operator?]

theorem close_follows {level : Level} {term : Expr} (follows : A.Follows turn halts tokens)
    (along : c.tokens = tokens) (deep : c.depth = base + (level :: outer).length)
    (ends : ∀ t ∈ c.next?, Goal.expression.EndsAt t.token) (further : place < c.position) :
    Meets turn halts goal base (columnAfter tokens.toList)
      ((State.after sum term (level :: outer)).read goal base (columnAfter tokens.toList) c.remaining)
      place (base + outer.length) (fun e next _ => next = level.accept outer e)
      (c.close A (sum.join term)).1 (c.close A (sum.join term)).2.cursor := by
  unfold Cursor.close
  split
  · rename_i last
    refine .ok rfl (Nat.lt_of_lt_of_le further c.step.further) ?_ (read_take last rfl)
    change c.step.cursor.depth - 1 = _
    rw [step_depth, deep]
    rfl
  · rename_i t other last
    have unclosed : t.token ≠ .closeParen := by
      intro closing
      exact other t.offset (by rw [← closing])
    refine meets_fail (next_gives follows along last) ?_
    exact read_stay last deep (feed_unclosed (ends t last) unclosed)
  · rename_i last
    refine meets_fail (end_gives follows along) ?_
    exact read_end last deep rfl

theorem enter_depth (level : Level) (deep : c.depth = base + outer.length) :
    c.step.enter.cursor.depth = base + (level :: outer).length := by
  change c.step.cursor.depth + 1 = _
  rw [step_depth, deep]
  rfl

theorem read_enter {level : Level} {offset : Nat} (found : c.next? = some ⟨.openParen, offset⟩)
    (deep : c.depth = base + outer.length) (room : ¬ maxDepth ≤ c.depth) :
    (State.before level outer).read goal base column c.remaining =
      (State.before .empty (level :: outer)).read goal base column c.step.enter.cursor.remaining :=
  read_take found (by simp [State.feed, ← deep, room])

theorem grouping_follows {level : Level} (follows : A.Follows turn halts tokens)
    (along : c.tokens = tokens) (deep : c.depth = base + outer.length) (found : c.next? = some t)
    (paren : t.token = .openParen)
    (inner : c.step.enter.cursor.AdditiveFollows A turn halts goal base tokens) :
    c.Follows turn halts goal base tokens (.before level outer) c.position
      (fun e next _ => next = level.accept outer e) (c.grouping A t found) := by
  have gives := next_gives follows along found
  obtain ⟨token, offset⟩ := t
  obtain rfl : token = .openParen := paren
  unfold Cursor.Follows
  rw [Cursor.grouping]
  cases computed : A.column ⟨.openParen, offset⟩ with
  | error stop =>
    rw [computed] at gives
    exact .halt gives
  | ok n =>
    rw [computed] at gives
    dsimp only
    by_cases full : maxDepth ≤ c.depth
    · rw [if_pos full, gives]
      exact .error (read_step found deep (by simp [State.feed, ← deep, full]))
    · rw [if_neg full]
      have raised := enter_depth level deep
      have inside := inner (level :: outer) (step_tokens along) raised (by simp)
      unfold Cursor.Follows at inside
      rw [read_enter found deep full]
      refine meets_andThen inside fun e next after state further closed same => ?_
      obtain ⟨sum, term, rfl, rfl, ends⟩ := state
      rw [same, deep]
      exact close_follows follows (after.tokens.trans (step_tokens along)) (closed.trans raised) ends
        (Nat.lt_of_le_of_lt c.step.enter.further further)

theorem feed_unexpected {level : Level} (paren : t.token ≠ .openParen)
    (word : ∀ text, t.token ≠ .word text) (sign : level.negated = false → t.token ≠ .minus) :
    (State.before level outer).feed goal base t =
      .refuse false ⟨.unexpectedToken t.token.lexeme, t.column⟩ := by
  obtain ⟨token, offset⟩ := t
  cases token <;> simp_all [State.feed]

theorem operand_follows {level : Level} {text : String} (follows : A.Follows turn halts tokens)
    (along : c.tokens = tokens) (deep : c.depth = base + outer.length) (found : c.next? = some t)
    (word : t.token = .word text) :
    c.Follows turn halts goal base tokens (.before level outer) c.position
      (fun e next _ => next = level.accept outer e)
      ((A.column t).bind (A.operand text), c.step) := by
  have gives := next_gives follows along found
  obtain ⟨token, offset⟩ := t
  obtain rfl : token = .word text := word
  have further : c.position < c.step.cursor.position := by simp [step_eq found]
  unfold Cursor.Follows
  cases computed : A.column ⟨.word text, offset⟩ with
  | error stop =>
    rw [computed] at gives
    exact .halt gives
  | ok n =>
    rw [computed] at gives
    simp only [Except.bind, Arithmetic.operand]
    cases read : Expr.ofWord text with
    | ok e => exact .ok rfl further (step_depth c) (read_take found (by simp [State.feed, read]))
    | error fault =>
      simp only [gives fault]
      exact .error (read_step found deep (by simp [State.feed, read]))

theorem primary_follows (level : Level) (follows : A.Follows turn halts tokens)
    (along : c.tokens = tokens) (deep : c.depth = base + outer.length)
    (sign : level.negated = false → ∀ t ∈ c.next?, t.token ≠ .minus)
    (inner : ∀ t ∈ c.next?, c.step.enter.cursor.AdditiveFollows A turn halts goal base tokens) :
    c.Follows turn halts goal base tokens (.before level outer) c.position
      (fun e next _ => next = level.accept outer e) (c.primary A) := by
  rw [Cursor.primary]
  split
  · rename_i last
    refine meets_fail (end_gives follows along) ?_
    exact read_end last deep rfl
  · rename_i t found
    split
    · rename_i paren
      exact grouping_follows follows along deep found paren (inner t found)
    · rename_i text word
      exact operand_follows follows along deep found word
    · rename_i word paren
      refine meets_fail (next_gives follows along found) ?_
      exact read_stay found deep (feed_unexpected word paren fun plain => sign plain t found)

theorem unary_follows (sum product : Waiting) (follows : A.Follows turn halts tokens)
    (along : c.tokens = tokens) (deep : c.depth = base + outer.length)
    (inner : ∀ d : Cursor, d.left < c.left → d.AdditiveFollows A turn halts goal base tokens) :
    c.Follows turn halts goal base tokens (.before ⟨sum, product, false⟩ outer) c.position
      (fun e next _ => next = .after sum (product.join e) outer) (c.unary A) := by
  have entered {d : Cursor} {t : Placed} (found : d.next? = some t) :
      d.step.enter.cursor.left < d.left := step_left found
  rw [Cursor.unary]
  split
  · rename_i offset found
    have signed {column : Nat} :
        (State.before ⟨sum, product, false⟩ outer).read goal base column c.remaining =
          (State.before ⟨sum, product, true⟩ outer).read goal base column c.step.cursor.remaining :=
      read_take found rfl
    have operand : c.step.cursor.Follows turn halts goal base tokens
        (.before ⟨sum, product, true⟩ outer) c.step.cursor.position
        (fun e next _ => next = Level.accept ⟨sum, product, true⟩ outer e)
        (c.step.cursor.primary A) := by
      refine primary_follows _ follows (step_tokens along) ((step_depth c).trans deep) (by simp) ?_
      intro t next
      exact inner _ (Nat.lt_trans (entered next) (step_left found))
    unfold Cursor.Follows at operand ⊢
    rw [step_depth] at operand
    rw [signed]
    refine meets_andThen operand fun e next after state further level same => ?_
    exact .ok state (Nat.lt_of_le_of_lt c.step.further further) level same
  · rename_i other
    refine primary_follows ⟨sum, product, false⟩ follows along deep ?_ ?_
    · intro plain t found minus
      exact other t.offset (by rw [found, ← minus])
    · exact fun t next => inner _ (entered next)

theorem operator_found {op : BinaryOp} {tight : Bool} (found : c.operator? tight = some op) :
    ∃ t, c.next? = some t ∧ t.token.operator? = some op ∧ op.isProduct = tight := by
  unfold Cursor.operator? at found
  cases next : c.next? with
  | none => simp [next] at found
  | some t =>
    obtain ⟨sign, level⟩ : t.token.operator? = some op ∧ op.isProduct = tight := by
      simpa [next, Option.filter_eq_some_iff] using found
    exact ⟨t, rfl, sign, level⟩

theorem operator_absent {op : BinaryOp} {tight : Bool} (none : c.operator? tight = none)
    (found : c.next? = some t) (sign : t.token.operator? = some op) : op.isProduct = !tight := by
  simpa [Cursor.operator?, found, sign, Bool.eq_not] using none

theorem unlessParen_follows {term e : Expr} (follows : A.Follows turn halts tokens)
    (along : c.tokens = tokens) (deep : c.depth = base + outer.length) (further : place < c.position)
    (state : (∀ t ∈ c.next?, t.token ≠ .openParen) → leads e (.after sum term outer) c) :
    Meets turn halts goal base (columnAfter tokens.toList)
      ((State.after sum term outer).read goal base (columnAfter tokens.toList) c.remaining)
      place c.depth leads (A.unlessParen c e) c := by
  unfold Arithmetic.unlessParen
  split
  · rename_i found
    refine meets_fail (next_gives follows along found) ?_
    exact read_stay found deep rfl
  · rename_i other
    refine .ok (state ?_) further rfl rfl
    intro t found paren
    exact other t.offset (by rw [found, ← paren])

theorem multiplicativeLoop_follows {start : Cursor} (follows : A.Follows turn halts tokens)
    (along : start.tokens = tokens) (left : Expr) (here : start.Onward)
    (deep : here.cursor.depth = base + outer.length)
    (moved : start.position < here.cursor.position)
    (inner : ∀ d : Cursor, d.left < here.cursor.left →
      d.AdditiveFollows A turn halts goal base tokens) :
    here.cursor.Follows turn halts goal base tokens (.after sum left outer) start.position
      (fun e next after => next = .after sum e outer ∧
        ∀ t ∈ after.next?, Goal.term.EndsAt t.token)
      (start.multiplicativeLoop A left here) := by
  have along' : here.cursor.tokens = tokens := here.tokens.trans along
  induction size : here.cursor.left using Nat.strongRecOn generalizing left here with
  | ind n ih =>
    rw [Cursor.multiplicativeLoop, if_pos moved]
    split
    · rename_i none
      refine unlessParen_follows follows along' deep moved fun plain => ⟨rfl, fun t found => ?_⟩
      exact ⟨plain t found, fun op sign => ⟨rfl, operator_absent none found sign⟩⟩
    · rename_i op found
      obtain ⟨t, next, sign, tight⟩ := operator_found found
      have shorter : here.cursor.step.cursor.left < here.cursor.left := step_left next
      have factor := unary_follows sum (some (left, op)) follows (step_tokens along')
        ((step_depth _).trans deep) fun d below => inner d (Nat.lt_trans below shorter)
      unfold Cursor.Follows at factor ⊢
      rw [read_take next (feed_take_iff.mpr (.product sign tight))]
      refine meets_andThen factor fun e next after state further level same => ?_
      have below : after.cursor.left < here.cursor.left :=
        Nat.lt_of_le_of_lt (onward_left after) shorter
      have before : start.position < after.cursor.position :=
        Nat.lt_trans (Nat.lt_of_lt_of_le moved here.cursor.step.further) further
      rw [step_depth] at level
      rw [same, state, ← level]
      exact ih _ (size ▸ below) _ (here.step.before after) (level.trans deep) before
        (fun d less => inner d (Nat.lt_trans less below))
        (after.tokens.trans (step_tokens along')) rfl

theorem multiplicative_follows (sum : Waiting) (follows : A.Follows turn halts tokens)
    (along : c.tokens = tokens) (deep : c.depth = base + outer.length)
    (inner : ∀ d : Cursor, d.left < c.left → d.AdditiveFollows A turn halts goal base tokens) :
    c.Follows turn halts goal base tokens (.before ⟨sum, none, false⟩ outer) c.position
      (fun e next after => next = .after sum e outer ∧
        ∀ t ∈ after.next?, Goal.term.EndsAt t.token)
      (c.multiplicative A) := by
  have factor := unary_follows sum none follows along deep inner
  rw [Cursor.multiplicative]
  unfold Cursor.Follows at factor ⊢
  refine meets_andThen factor fun e next after state further level same => ?_
  rw [same, state, ← level]
  exact multiplicativeLoop_follows follows along _ after (level.trans deep) further
    fun d less => inner d (Nat.lt_of_lt_of_le less (onward_left after))

theorem additiveLoop_follows {start : Cursor} (follows : A.Follows turn halts tokens)
    (along : start.tokens = tokens) (sum : Waiting) (term : Expr) (here : start.Onward)
    (deep : here.cursor.depth = base + outer.length) (inside : goal = .term → outer ≠ [])
    (ends : ∀ t ∈ here.cursor.next?, Goal.term.EndsAt t.token)
    (moved : start.position < here.cursor.position)
    (inner : ∀ d : Cursor, d.left < here.cursor.left →
      d.AdditiveFollows A turn halts goal base tokens) :
    here.cursor.Follows turn halts goal base tokens (.after sum term outer) start.position
      (fun e next after => ∃ sum term, next = .after sum term outer ∧ sum.join term = e ∧
        ∀ t ∈ after.next?, Goal.expression.EndsAt t.token)
      (start.additiveLoop A (sum.join term) here) := by
  have along' : here.cursor.tokens = tokens := here.tokens.trans along
  induction size : here.cursor.left using Nat.strongRecOn generalizing sum term here with
  | ind n ih =>
    rw [Cursor.additiveLoop, if_pos moved]
    split
    · rename_i none
      refine unlessParen_follows follows along' deep moved fun plain =>
        ⟨sum, term, rfl, rfl, fun t found => ⟨plain t found, fun op sign => ?_⟩⟩
      have loose := ((ends t found).2 op sign).2
      rw [operator_absent none found sign] at loose
      cases loose
    · rename_i op found
      obtain ⟨t, next, sign, loose⟩ := operator_found found
      have shorter : here.cursor.step.cursor.left < here.cursor.left := step_left next
      have operand := multiplicative_follows (some (sum.join term, op)) follows (step_tokens along')
        ((step_depth _).trans deep) fun d below => inner d (Nat.lt_trans below shorter)
      unfold Cursor.Follows at operand ⊢
      rw [read_take next (feed_take_iff.mpr (.sum sign loose inside))]
      refine meets_andThen operand fun e next after state further level same => ?_
      have below : after.cursor.left < here.cursor.left :=
        Nat.lt_of_le_of_lt (onward_left after) shorter
      have before : start.position < after.cursor.position :=
        Nat.lt_trans (Nat.lt_of_lt_of_le moved here.cursor.step.further) further
      rw [step_depth] at level
      rw [same, state.1, ← level]
      exact ih _ (size ▸ below) (some (sum.join term, op)) e (here.step.before after)
        (level.trans deep) state.2 before (fun d less => inner d (Nat.lt_trans less below))
        (after.tokens.trans (step_tokens along')) rfl

theorem additive_follows (follows : A.Follows turn halts tokens) (c : Cursor) :
    c.AdditiveFollows A turn halts goal base tokens := by
  induction size : c.left using Nat.strongRecOn generalizing c with
  | ind n ih =>
    have inner (d : Cursor) (less : d.left < c.left) :
        d.AdditiveFollows A turn halts goal base tokens := ih _ (size ▸ less) d rfl
    intro outer along deep inside
    have operand := multiplicative_follows none follows along deep inner
    rw [Cursor.additive]
    unfold Cursor.Follows at operand ⊢
    rw [Level.empty]
    refine meets_andThen operand fun e next after state further level same => ?_
    rw [same, state.1, ← level]
    exact additiveLoop_follows follows along none e after (level.trans deep) inside state.2 further
      fun d less => inner d (Nat.lt_of_lt_of_le less (onward_left after))

@[simp]
theorem ok_mapError {α δ : Type} (f : δ → ε) (a : α) : (Except.ok a).mapError f = .ok a := rfl

@[simp]
theorem error_mapError {α δ : Type} (f : δ → ε) (e : δ) :
    (.error e : Except δ α).mapError f = .error (f e) := rfl

/-- A result is the one expected, but for the form of its error, or it is a halt. -/
def Agrees {α : Type} (turn : LineError → ε) (halts : ε → Prop) (result : Except ε α)
    (expected : Except LineError α) : Prop :=
  result = expected.mapError turn ∨ ∃ stop, result = .error stop ∧ halts stop

theorem meets_complete {result : Except ε Expr}
    (meets : Meets turn halts goal depth column reading place depth leads result after)
    (complete : ∀ e next, leads e next after →
      next.complete? = some e ∧ ∀ t ∈ after.next?, goal.EndsAt t.token) :
    (result = reading.result.mapError turn ∧ after.remaining = reading.rest ∧
      after.depth = reading.depth) ∨ ∃ stop, result = .error stop ∧ halts stop := by
  cases meets with
  | halt halted => exact .inr ⟨_, rfl, halted⟩
  | error same =>
    rw [same]
    exact .inl ⟨rfl, rfl, rfl⟩
  | ok state further level same =>
    obtain ⟨whole, ends⟩ := complete _ _ state
    rw [next_eq] at ends
    rw [same, read_complete whole ends]
    exact .inl ⟨rfl, rfl, level⟩

theorem additive_reading (follows : A.Follows turn halts c.tokens) :
    ((c.additive A).1 = (c.reading .expression).result.mapError turn ∧
      (c.additive A).2.cursor.remaining = (c.reading .expression).rest ∧
      (c.additive A).2.cursor.depth = (c.reading .expression).depth) ∨
    ∃ stop, (c.additive A).1 = .error stop ∧ halts stop := by
  have whole : c.AdditiveFollows A turn halts .expression c.depth c.tokens := additive_follows follows c
  refine meets_complete (whole [] rfl rfl (by simp)) ?_
  intro e next state
  obtain ⟨sum, term, rfl, rfl, ends⟩ := state
  exact ⟨rfl, ends⟩

theorem multiplicative_reading (follows : A.Follows turn halts c.tokens) :
    ((c.multiplicative A).1 = (c.reading .term).result.mapError turn ∧
      (c.multiplicative A).2.cursor.remaining = (c.reading .term).rest ∧
      (c.multiplicative A).2.cursor.depth = (c.reading .term).depth) ∨
    ∃ stop, (c.multiplicative A).1 = .error stop ∧ halts stop := by
  have term : c.Follows turn halts .term c.depth c.tokens (.before .empty []) c.position _
      (c.multiplicative A) :=
    multiplicative_follows none follows rfl rfl fun d _ => additive_follows follows d
  refine meets_complete term ?_
  intro e next state
  obtain ⟨rfl, ends⟩ := state
  exact ⟨rfl, ends⟩

theorem fail_agrees {α : Type} {computed : Except ε Nat} {exact : Nat} {fault : Fault}
    (gives : A.Gives turn halts computed exact) :
    Agrees turn halts (A.fail fault computed : Except ε α) (.error ⟨fault, exact⟩) := by
  cases computed with
  | ok n => exact .inl (congrArg Except.error (gives fault))
  | error stop => exact .inr ⟨stop, rfl, gives⟩

theorem readToEnd_agrees (follows : A.Follows turn halts c.tokens) :
    Agrees turn halts (c.readToEnd A) (c.reading .expression).atEnd := by
  rcases additive_reading follows with ⟨result, rest, -⟩ | ⟨stop, result, halted⟩
  · have along := (c.additive A).2.tokens
    unfold Cursor.readToEnd Reading.atEnd
    generalize c.additive A = come at result rest along ⊢
    obtain ⟨found, after⟩ := come
    simp only at result rest along
    subst result
    cases (c.reading .expression).result with
    | error error => exact .inl rfl
    | ok e =>
      rw [← rest]
      simp only [ok_mapError, Except.bind, Arithmetic.expectEnd]
      cases next : after.cursor.next? with
      | none =>
        rw [remaining_nil next]
        exact .inl rfl
      | some t =>
        rw [remaining_cons next]
        exact fail_agrees (next_gives follows along next)
  · unfold Cursor.readToEnd
    generalize c.additive A = come at result ⊢
    obtain ⟨found, after⟩ := come
    obtain rfl : found = .error stop := result
    exact .inr ⟨stop, rfl, halted⟩

end Calculator
