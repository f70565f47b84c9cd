/-
The grammar of queries.

    expr       := term | expr (and | or) term
    term       := '(' expr ')' | comparison
    comparison := value op value
    value      := field | status | text | number | truth | '(' span ')' | '(' instant ')'

The rules look at symbols only.  `Derives` carries the depth to which groups may
still nest as an index: a group spends one level, and the brackets of a span or an
instant spend none.  Since `and` and `or` share one level and the rule for them is
recursive on the left, a chain of any length is the left fold of its terms, which
`derives_expr_iff_fold` states without the recursion.

The one condition that is no matter of symbols is on finished comparisons: a text
that spells a status must not face a status.
-/
import RollCall.Query.Reader

namespace RollCall.Query

/-- The operand is a text that is the word for a status. -/
def Operand.SpellsStatus (o : Operand) : Prop :=
  o = .literal (.text "joined") ∨ o = .literal (.text "left")

/-- The operand is a status literal or the field that holds one. -/
def Operand.HoldsStatus (o : Operand) : Prop :=
  (∃ s, o = .literal (.status s)) ∨ o = .field .finalStatus

/-- One operand spells a status and the other one holds one. -/
def Misquoted (l r : Operand) : Prop :=
  l.SpellsStatus ∧ r.HoldsStatus ∨ r.SpellsStatus ∧ l.HoldsStatus

/-- The symbols of one side of a comparison. -/
inductive IsOperand : List Symbol → Operand → Prop
  | field (f : Field) : IsOperand [.field f] (.field f)
  | status (s : Status) : IsOperand [.literal (.status s)] (.literal (.status s))
  | text (s : String) : IsOperand [.literal (.text s)] (.literal (.text s))
  | number (x : Binary64) : IsOperand [.literal (.number x)] (.literal (.number x))
  | truth (b : Bool) : IsOperand [.literal (.truth b)] (.literal (.truth b))
  | span (d : Span) :
      IsOperand [.opening, .literal (.span d), .closing] (.literal (.span d))
  | instant (t : Instant) :
      IsOperand [.opening, .literal (.instant t), .closing] (.literal (.instant t))

/-- What the grammar speaks of besides operands. -/
inductive Phrase where
  | term
  | expr

/--
The symbols derive the tree, with groups nested at most `n` deep.

A term and an expression are two phrases of one relation, so that what holds of both
needs one induction only.
-/
inductive Derives : Phrase → (n : Nat) → List Symbol → Expr → Prop
  | compare {n : Nat} {ls rs : List Symbol} {l r : Operand} {op : Operator}
      (hl : IsOperand ls l) (hr : IsOperand rs r) (hq : ¬ Misquoted l r) :
      Derives .term n (ls ++ .operator op :: rs) (.compare op l r)
  | group {n : Nat} {ss : List Symbol} {e : Expr} (h : Derives .expr n ss e) :
      Derives .term (n + 1) (.opening :: ss ++ [.closing]) e
  | single {n : Nat} {ss : List Symbol} {e : Expr} (h : Derives .term n ss e) :
      Derives .expr n ss e
  | joined {n : Nat} {ls rs : List Symbol} {l r : Expr} {c : Connective}
      (hl : Derives .expr n ls l) (hr : Derives .term n rs r) :
      Derives .expr n (ls ++ .connective c :: rs) (.join c l r)

/-- Where groups may nest deeper nothing is lost. -/
theorem Derives.mono {p : Phrase} {n : Nat} {ss : List Symbol} {e : Expr}
    (h : Derives p n ss e) : ∀ m, n ≤ m → Derives p m ss e := by
  induction h with
  | compare hl hr hq => intro m _; exact .compare hl hr hq
  | @group n ss e _ ih =>
      intro m hm
      obtain ⟨k, rfl⟩ : ∃ k, m = k + 1 := ⟨m - 1, by omega⟩
      exact .group (ih k (by omega))
  | single _ ih => intro m hm; exact .single (ih m hm)
  | joined _ _ ihl ihr => intro m hm; exact .joined (ihl m hm) (ihr m hm)

/-- Groups nest no deeper than there are brackets that open them. -/
theorem Derives.of_count_opening {p : Phrase} {n : Nat} {ss : List Symbol} {e : Expr}
    (h : Derives p n ss e) : ∀ m, ss.count .opening ≤ m → Derives p m ss e := by
  induction h with
  | compare hl hr hq => intro m _; exact .compare hl hr hq
  | @group n ss e _ ih =>
      intro m hm
      have hcount : (Symbol.opening :: ss ++ [Symbol.closing]).count Symbol.opening =
          ss.count Symbol.opening + 1 := by
        simp
      obtain ⟨k, rfl⟩ : ∃ k, m = k + 1 := ⟨m - 1, by omega⟩
      exact .group (ih k (by omega))
  | single _ ih => intro m hm; exact .single (ih m hm)
  | joined _ _ ihl ihr =>
      intro m hm
      rw [List.count_append, List.count_cons] at hm
      exact .joined (ihl m (by omega)) (ihr m (by omega))

/-! ### Chains -/

/-- A connective, and the symbols and the tree of the term behind it. -/
structure Link where
  connective : Connective
  symbols : List Symbol
  term : Expr

/-- The symbols of a link. -/
def Link.spelled (k : Link) : List Symbol :=
  .connective k.connective :: k.symbols

/-- The left fold of a chain. -/
def foldLinks (first : Expr) (links : List Link) : Expr :=
  links.foldl (fun e k => .join k.connective e k.term) first

theorem derives_foldLinks {n : Nat} :
    ∀ (links : List Link) (ss : List Symbol) (e : Expr), Derives .expr n ss e →
      (∀ k ∈ links, Derives .term n k.symbols k.term) →
      Derives .expr n (ss ++ links.flatMap Link.spelled) (foldLinks e links) := by
  intro links
  induction links with
  | nil => intro ss e he _; simpa [foldLinks] using he
  | cons k links ih =>
      intro ss e he hall
      have hk : Derives .expr n (ss ++ k.spelled) (.join k.connective e k.term) :=
        Derives.joined he (hall k (by simp))
      have := ih _ _ hk fun k' hk' => hall k' (by simp [hk'])
      simpa [foldLinks, List.append_assoc] using this

/-- **A chain is the left fold of its terms**, whatever connectives stand between them. -/
theorem derives_expr_iff_fold {n : Nat} {ss : List Symbol} {e : Expr} :
    Derives .expr n ss e ↔
      ∃ (fs : List Symbol) (first : Expr) (links : List Link),
        Derives .term n fs first ∧ (∀ k ∈ links, Derives .term n k.symbols k.term) ∧
        ss = fs ++ links.flatMap Link.spelled ∧ e = foldLinks first links := by
  constructor
  · intro h
    generalize hp : Phrase.expr = p at h
    induction h with
    | compare => cases hp
    | group => cases hp
    | single h => exact ⟨_, _, [], h, by simp, by simp, rfl⟩
    | @joined n ls rs l r c hl hr ihl ihr =>
        obtain ⟨fs, first, links, hfirst, hlinks, rfl, rfl⟩ := ihl hp
        refine ⟨fs, first, links ++ [⟨c, rs, r⟩], hfirst, ?_, ?_, ?_⟩
        · intro k hk
          rcases List.mem_append.mp hk with hk | hk
          · exact hlinks k hk
          · rw [List.mem_singleton.mp hk]
            exact hr
        · simp [Link.spelled]
        · simp [foldLinks]
  · rintro ⟨fs, first, links, hfirst, hlinks, rfl, rfl⟩
    exact derives_foldLinks links fs first (.single hfirst) hlinks

/-! ### How a phrase begins

A bracket in front of a span or an instant belongs to that literal, so a phrase never
begins with such a literal itself.  That is what lets the reader tell the bracket of a
group by the symbol behind it.
-/

/-- The symbol is a span or an instant. -/
def Symbol.needsBrackets : Symbol → Bool
  | .literal l => l.needsBrackets
  | _ => false

theorem IsOperand.head {ss : List Symbol} {o : Operand} (h : IsOperand ss o) :
    ∃ s rest, ss = s :: rest ∧ s.needsBrackets = false := by
  cases h <;> exact ⟨_, _, rfl, rfl⟩

theorem Derives.head {p : Phrase} {n : Nat} {ss : List Symbol} {e : Expr}
    (h : Derives p n ss e) : ∃ s rest, ss = s :: rest ∧ s.needsBrackets = false := by
  induction h with
  | compare hl =>
      obtain ⟨s, rest, rfl, hs⟩ := hl.head
      exact ⟨s, _, rfl, hs⟩
  | group => exact ⟨.opening, _, rfl, rfl⟩
  | single _ ih => exact ih
  | joined _ _ ihl =>
      obtain ⟨s, rest, rfl, hs⟩ := ihl
      exact ⟨s, _, rfl, hs⟩

end RollCall.Query
