/-
A query written and read again.

The written form of a query puts brackets around every pair that is joined, so its
symbols say the shape of the tree by themselves: whatever is derived from them is the
tree, and a group is opened for every level of it.  A chain that was read without any
bracket is written with one more level for every link, which is how a query that was
accepted can come out too deep.

The scan of the written form is followed from left to right.  A literal of no legible
form stops it; otherwise it finds the symbols of the same tree with its texts as they
are read back.  The two halves meet in `ofText_render_iff`.
-/
import RollCall.Proofs.Query.Written

namespace RollCall.Query

/-! ### The symbols of a tree -/

/-- The operands of a query from left to right. -/
def Expr.operands : Expr → List Operand
  | .compare _ l r => [l, r]
  | .join _ l r => l.operands ++ r.operands

/-- How many pairs lie inside each other; a comparison is no pair. -/
def Expr.height : Expr → Nat
  | .compare _ _ _ => 0
  | .join _ l r => max l.height r.height + 1

/-- The symbols that an operand is written with. -/
def Operand.symbols : Operand → List Symbol
  | .field f => [.field f]
  | .literal l => if l.needsBrackets then [.opening, .literal l, .closing] else [.literal l]

/-- The symbols that a query is written with. -/
def Expr.symbols : Expr → List Symbol
  | .compare op l r => l.symbols ++ .operator op :: r.symbols
  | .join c l r => .opening :: (l.symbols ++ .connective c :: r.symbols) ++ [.closing]

theorem Operand.isOperand_symbols (o : Operand) : IsOperand o.symbols o := by
  cases o with
  | field f => exact .field f
  | literal l => cases l <;> constructor

/-- The symbols of a query do not begin with a literal that needs brackets. -/
theorem Expr.head_symbols (e : Expr) :
    ∃ s rest, e.symbols = s :: rest ∧ s.needsBrackets = false := by
  cases e with
  | compare op l r =>
      obtain ⟨s, rest, hl, hs⟩ := l.isOperand_symbols.head
      exact ⟨s, _, by rw [Expr.symbols, hl]; rfl, hs⟩
  | join c l r => exact ⟨.opening, _, rfl, rfl⟩

/-! ### Reading the symbols of a tree -/

namespace Reader

/--
The reader gets past the symbols of a tree in one way only.

It opens a group for every level of the tree, so it gets past them at all only if the
levels fit into the depth that is left.
-/
theorem takeAll_symbols (f : Expr) :
    ∀ (p : Pending) (enc : List Pending) (ts : List Token) (s : State),
      ts.map Token.symbol = f.symbols → enc.length ≤ deepestNesting →
      State.takeAll ⟨.term, p, enc⟩ ts = .ok s →
      s = .afterTerm p enc f ∧ enc.length + f.height ≤ deepestNesting := by
  induction f with
  | compare op l r =>
      intro p enc ts s hts henc h
      obtain ⟨ls, us, rfl, hls, hus⟩ := List.map_eq_append_iff.mp hts
      obtain ⟨o, rs, rfl, ho, hrs⟩ := List.map_eq_cons_iff.mp hus
      obtain ⟨lt, hleft⟩ := takeAll_left (hls ▸ l.isOperand_symbols) p enc
      obtain ⟨rt, hright⟩ := takeAll_right (hrs ▸ r.isOperand_symbols) ⟨_, lt⟩ op p enc
      rw [takeAll_append_of_ok hleft] at h
      simp only [State.takeAll, State.take, ho] at h
      rw [hright] at h
      exact ⟨(closeComparison_eq_ok_iff.mp h).2, henc⟩
  | join c l r ihl ihr =>
      intro p enc ts s hts henc h
      obtain ⟨as, bs, rfl, has, hbs⟩ := List.map_eq_append_iff.mp hts
      obtain ⟨z, _, rfl, hz, hnil⟩ := List.map_eq_cons_iff.mp hbs
      obtain rfl := List.map_eq_nil_iff.mp hnil
      obtain ⟨a, is, rfl, ha, his⟩ := List.map_eq_cons_iff.mp has
      obtain ⟨ls, us, rfl, hls, hus⟩ := List.map_eq_append_iff.mp his
      obtain ⟨o, rs, rfl, ho, hrs⟩ := List.map_eq_cons_iff.mp hus
      obtain ⟨y, ys, hy, hhead⟩ := l.head_symbols
      obtain ⟨t, ls, rfl, ht, -⟩ := List.map_eq_cons_iff.mp (hls.trans hy)
      obtain ⟨closing, hinner, hz'⟩ := takeAll_append_eq_ok h
      have hopen : State.takeAll ⟨.afterOpening, p, enc⟩ (t :: (ls ++ o :: rs)) = .ok closing := by
        rw [← hinner]
        simp [State.takeAll, State.take, State.takeTerm, plainOperand?, ha]
      have hroom := length_lt_of_openGroup (by rw [ht]; exact hhead) hopen
      rw [takeAll_openGroup (by rw [ht]; exact hhead) hroom, ← List.cons_append] at hopen
      obtain ⟨joint, hl, hrest⟩ := takeAll_append_eq_ok hopen
      obtain ⟨rfl, hheightl⟩ := ihl none (p :: enc) _ joint hls hroom hl
      simp only [State.takeAll, State.take, State.afterTerm, ho] at hrest
      obtain ⟨rfl, hheightr⟩ := ihr _ (p :: enc) rs closing hrs hroom hrest
      rw [takeAll_singleton] at hz'
      simp only [State.take, State.afterTerm, hz] at hz'
      obtain rfl := Except.ok.inj hz'
      refine ⟨rfl, ?_⟩
      simp only [List.length_cons] at hheightl hheightr
      simp only [Expr.height]
      omega

end Reader

/-- **The symbols of a tree derive that tree only**, and only if its groups nest no deeper than
they may. -/
theorem derives_symbols {f e : Expr} (h : Derives .expr deepestNesting f.symbols e) :
    e = f ∧ f.height ≤ deepestNesting := by
  let ts : Tokens := ⟨f.symbols.map fun s => ⟨s, "", 0⟩, 0⟩
  have hts : ts.list.map Token.symbol = f.symbols := by simp [ts, Function.comp_def]
  have hread : Expr.ofTokens ts = .ok e := by
    rw [ofTokens_eq_ok_iff, Tokens.symbols, hts]
    exact h
  unfold Expr.ofTokens at hread
  split at hread
  · rename_i s hs
    obtain ⟨rfl, hheight⟩ :=
      Reader.takeAll_symbols f none [] ts.list s hts (Nat.zero_le _) hs
    refine ⟨(Except.ok.inj hread).symm, ?_⟩
    simpa using hheight
  · cases hread

/-- A tree that is derived from some symbols is derived from its own, as one term; the depth that
this takes is its height. -/
theorem Derives.symbols {ph : Phrase} {n : Nat} {ss : List Symbol} {e : Expr}
    (h : Derives ph n ss e) : ∀ m, e.height ≤ m → Derives .term m e.symbols e := by
  induction h with
  | @compare n ls rs l r op hl hr hq =>
      intro m _
      exact .compare l.isOperand_symbols r.isOperand_symbols hq
  | group _ ih => exact ih
  | single _ ih => exact ih
  | joined _ _ ihl ihr =>
      intro m hm
      simp only [Expr.height] at hm
      obtain ⟨k, rfl⟩ : ∃ k, m = k + 1 := ⟨m - 1, by omega⟩
      exact .group (.joined (.single (ihl k (by omega))) (ihr k (by omega)))

/-- The literals of a tree stand among the symbols that it is derived from. -/
theorem Derives.literal_mem {ph : Phrase} {n : Nat} {ss : List Symbol} {e : Expr}
    (h : Derives ph n ss e) {l : Literal} (hl : .literal l ∈ e.operands) : .literal l ∈ ss := by
  have hoperand : ∀ {ss : List Symbol}, IsOperand ss (.literal l) → .literal l ∈ ss := by
    intro ss h
    cases h <;> simp
  induction h with
  | compare hleft hright _ =>
      simp only [Expr.operands, List.mem_cons, List.not_mem_nil, or_false] at hl
      rcases hl with rfl | rfl
      · exact List.mem_append_left _ (hoperand hleft)
      · exact List.mem_append_right _ (List.mem_cons_of_mem _ (hoperand hright))
  | group _ ih => exact List.mem_append_left _ (List.mem_cons_of_mem _ (ih hl))
  | single _ ih => exact ih hl
  | joined _ _ ihl ihr =>
      rcases List.mem_append.mp hl with hl | hl
      · exact List.mem_append_left _ (ihl hl)
      · exact List.mem_append_right _ (List.mem_cons_of_mem _ (ihr hl))

/-! ### The scan of the written form -/

/-- A literal that is written in a form that tokens have. -/
def Literal.Legible : Literal → Prop
  | .number x => x.isFinite = true
  | .span d => d < .ofSeconds (100 * 3600)
  | _ => True

/-- A literal as it is read where it was written. -/
def Literal.reread : Literal → Literal
  | .text s => .text (Token.rereadText s)
  | l => l

/-- An operand as it is read where it was written. -/
def Operand.reread : Operand → Operand
  | .field f => .field f
  | .literal l => .literal l.reread

/-- A query as it is read where it was written. -/
def Expr.reread : Expr → Expr
  | .compare op l r => .compare op l.reread r.reread
  | .join c l r => .join c l.reread r.reread

theorem span_lt_iff (seconds : Nat) :
    Span.ofSeconds seconds < .ofSeconds (100 * 3600) ↔ seconds < 360000 := by
  show (seconds : Int) * Span.second < 100 * 3600 * Span.second ↔ _
  simp only [Span.second]
  omega

theorem Literal.symbols?_written {l : Literal} (hsay : l.Sayable) (hlegible : l.Legible)
    {rest : List Char} (hrest : Delimited rest) :
    symbols? (l.written ++ rest) =
      (symbols? rest).map ((Operand.literal l.reread).symbols ++ ·) := by
  cases l with
  | text s => exact Token.symbols?_text s rest
  | number x => exact Token.symbols?_number hlegible hrest
  | truth b => cases b <;> exact Token.symbols?_word rfl hrest
  | status s => cases s <;> exact Token.symbols?_word rfl hrest
  | span d =>
      obtain ⟨seconds, rfl⟩ := hsay
      have hclock := Token.symbols?_clock ((span_lt_iff seconds).mp hlegible) (')' :: rest)
      simp only [Literal.written, Span.partsText_ofSeconds, List.cons_append,
        List.append_assoc, List.nil_append]
      rw [symbols?_opening, hclock, symbols?_closing]
      simp only [Option.map_map]
      rfl
  | instant t =>
      obtain ⟨date, hour, minute, second, hshows⟩ := hsay
      have htext := Token.symbols?_instant hshows (')' :: rest)
      simp only [Literal.written, List.cons_append, List.append_assoc, List.nil_append]
      rw [symbols?_opening, htext, symbols?_closing]
      simp only [Option.map_map]
      rfl

theorem Literal.symbols?_written_eq_none {l : Literal} (hsay : l.Sayable)
    (hlegible : ¬ l.Legible) {rest : List Char} (hrest : Delimited rest) :
    symbols? (l.written ++ rest) = none := by
  cases l with
  | number x => exact Token.symbols?_number_of_not_finite (by simpa [Legible] using hlegible) hrest
  | span d =>
      obtain ⟨seconds, rfl⟩ := hsay
      have hlong : 360000 ≤ seconds := Nat.le_of_not_lt (mt (span_lt_iff seconds).mpr hlegible)
      have hclock := Token.symbols?_clock_of_le hlong (')' :: rest)
      simp only [Literal.written, Span.partsText_ofSeconds, List.cons_append,
        List.append_assoc, List.nil_append]
      rw [symbols?_opening, hclock]
      rfl
  | _ => exact absurd trivial hlegible

theorem symbols?_field (f : Field) {rest : List Char} (hrest : Delimited rest) :
    symbols? (f.keyword.toList ++ rest) = (symbols? rest).map ([.field f] ++ ·) := by
  cases f <;> exact Token.symbols?_word rfl hrest

theorem symbols?_connective (c : Connective) {rest : List Char} (hrest : Delimited rest) :
    symbols? (c.word.toList ++ rest) = (symbols? rest).map (.connective c :: ·) := by
  cases c <;> exact Token.symbols?_word rfl hrest

/-- An operator is followed by a space, so that no equals sign is drawn to it. -/
theorem symbols?_operator (op : Operator) (rest : List Char) :
    symbols? (op.symbol.toList ++ ' ' :: rest) = (symbols? rest).map (.operator op :: ·) := by
  have hscan : ∃ c cs n, op.symbol.toList ++ ' ' :: rest = c :: cs ∧ Text.isBlank c = false ∧
      Token.scan c cs = .ok (.operator op, n) ∧ cs.drop n = ' ' :: rest := by
    cases op <;> exact ⟨_, _, _, rfl, rfl, rfl, rfl⟩
  obtain ⟨c, cs, n, hcs, hblank, hscan, hdrop⟩ := hscan
  rw [hcs, symbols?_of_scan hblank hscan, hdrop, symbols?_space]

/-- **A field, an operator and the text of an operand are read as their comparison.** -/
theorem ofText_compare {q : String} {f : Field} {op : Operator} {cs : List Char}
    {rs : List Symbol} {r : Operand}
    (htext : q.toList = f.keyword.toList ++ ' ' :: (op.symbol.toList ++ ' ' :: cs))
    (hshort : Text.byteLength q.toList ≤ longestQuery) (hscan : symbols? cs = some rs)
    (hr : IsOperand rs r) (hquoted : ¬ Misquoted (.field f) r) :
    Expr.ofText q = .ok (.compare op (.field f) r) := by
  have hsymbols : symbols? q.toList = some ([.field f] ++ .operator op :: rs) := by
    rw [htext, symbols?_field f (delimited_space _), symbols?_space, symbols?_operator, hscan]
    rfl
  exact ofText_eq_ok_iff.mpr ⟨hshort, _, hsymbols, .single (.compare (.field f) hr hquoted)⟩

/-- An operand that can be said. -/
def Operand.Sayable : Operand → Prop
  | .field _ => True
  | .literal l => l.Sayable

/-- An operand that is written in a form that tokens have. -/
def Operand.Legible : Operand → Prop
  | .field _ => True
  | .literal l => l.Legible

theorem Operand.symbols?_written {o : Operand} (hsay : o.Sayable) (hlegible : o.Legible)
    {rest : List Char} (hrest : Delimited rest) :
    symbols? (o.written ++ rest) = (symbols? rest).map (o.reread.symbols ++ ·) := by
  cases o with
  | field f => exact symbols?_field f hrest
  | literal l => exact Literal.symbols?_written hsay hlegible hrest

theorem Operand.symbols?_written_eq_none {o : Operand} (hsay : o.Sayable) (hlegible : ¬ o.Legible)
    {rest : List Char} (hrest : Delimited rest) : symbols? (o.written ++ rest) = none := by
  cases o with
  | field f => exact absurd trivial hlegible
  | literal l => exact Literal.symbols?_written_eq_none hsay hlegible hrest

namespace Expr

/-- All operands of a query can be said. -/
def Sayable (e : Expr) : Prop :=
  ∀ o ∈ e.operands, o.Sayable

/-- All operands of a query are written in a form that tokens have. -/
def Legible (e : Expr) : Prop :=
  ∀ o ∈ e.operands, o.Legible

theorem sayable_compare {op : Operator} {l r : Operand} :
    (compare op l r).Sayable ↔ l.Sayable ∧ r.Sayable := by
  simp [Sayable, operands]

theorem sayable_join {c : Connective} {l r : Expr} :
    (join c l r).Sayable ↔ l.Sayable ∧ r.Sayable :=
  List.forall_mem_append

theorem legible_compare {op : Operator} {l r : Operand} :
    (compare op l r).Legible ↔ l.Legible ∧ r.Legible := by
  simp [Legible, operands]

theorem legible_join {c : Connective} {l r : Expr} :
    (join c l r).Legible ↔ l.Legible ∧ r.Legible :=
  List.forall_mem_append

/-- **A legible query is scanned to the symbols of the query that is read.** -/
theorem symbols?_written {e : Expr} (hsay : e.Sayable) (hlegible : e.Legible) :
    ∀ {rest : List Char}, Delimited rest →
      symbols? (e.written ++ rest) = (symbols? rest).map (e.reread.symbols ++ ·) := by
  induction e with
  | compare op l r =>
      intro rest hrest
      obtain ⟨hsayl, hsayr⟩ := sayable_compare.mp hsay
      obtain ⟨hlegl, hlegr⟩ := legible_compare.mp hlegible
      simp only [written, List.append_assoc, List.cons_append]
      rw [l.symbols?_written hsayl hlegl (delimited_space _), symbols?_space, symbols?_operator,
        r.symbols?_written hsayr hlegr hrest]
      simp only [Option.map_map]
      congr 1
      funext ss
      simp [reread, symbols]
  | join c l r ihl ihr =>
      intro rest hrest
      obtain ⟨hsayl, hsayr⟩ := sayable_join.mp hsay
      obtain ⟨hlegl, hlegr⟩ := legible_join.mp hlegible
      simp only [written, List.append_assoc, List.cons_append, List.nil_append]
      rw [symbols?_opening, ihl hsayl hlegl (delimited_space _), symbols?_space,
        symbols?_connective c (delimited_space _), symbols?_space,
        ihr hsayr hlegr (delimited_closing rest), symbols?_closing]
      simp only [Option.map_map]
      congr 1
      funext ss
      simp [reread, symbols]

/-- **A query that is not legible is not scanned.**  What stands in front of the first literal of
no legible form is scanned well enough to come to it. -/
theorem symbols?_written_eq_none {e : Expr} (hsay : e.Sayable) (hlegible : ¬ e.Legible) :
    ∀ {rest : List Char}, Delimited rest → symbols? (e.written ++ rest) = none := by
  induction e with
  | compare op l r =>
      intro rest hrest
      obtain ⟨hsayl, hsayr⟩ := sayable_compare.mp hsay
      simp only [written, List.append_assoc, List.cons_append]
      by_cases hl : l.Legible
      · have hr : ¬ r.Legible := fun hr => hlegible (legible_compare.mpr ⟨hl, hr⟩)
        rw [l.symbols?_written hsayl hl (delimited_space _), symbols?_space, symbols?_operator,
          r.symbols?_written_eq_none hsayr hr hrest]
        rfl
      · exact l.symbols?_written_eq_none hsayl hl (delimited_space _)
  | join c l r ihl ihr =>
      intro rest hrest
      obtain ⟨hsayl, hsayr⟩ := sayable_join.mp hsay
      simp only [written, List.append_assoc, List.cons_append, List.nil_append]
      by_cases hl : l.Legible
      · have hr : ¬ r.Legible := fun hr => hlegible (legible_join.mpr ⟨hl, hr⟩)
        rw [symbols?_opening, l.symbols?_written hsayl hl (delimited_space _), symbols?_space,
          symbols?_connective c (delimited_space _), symbols?_space,
          ihr hsayr hr (delimited_closing rest)]
        rfl
      · rw [symbols?_opening, ihl hsayl hl (delimited_space _)]
        rfl

/-! ### Trees that are read back -/

theorem reread_eq_iff {e : Expr} :
    e.reread = e ↔
      ∀ s, .literal (.text s) ∈ e.operands → ∀ c ∈ s.toList, Token.Readable c := by
  have hoperand : ∀ o : Operand, o.reread = o ↔
      ∀ s, .literal (.text s) = o → ∀ c ∈ s.toList, Token.Readable c := by
    intro o
    cases o with
    | field f => simp [Operand.reread]
    | literal l => cases l <;> simp [Operand.reread, Literal.reread, Token.rereadText_eq_iff]
  induction e with
  | compare op l r =>
      simp only [reread, compare.injEq, true_and, hoperand, operands, List.mem_cons,
        List.not_mem_nil, or_false, or_imp, forall_and]
  | join c l r ihl ihr =>
      simp only [reread, join.injEq, true_and, ihl, ihr, operands, List.mem_append, or_imp,
        forall_and]

theorem legible_iff {e : Expr} :
    e.Legible ↔ (∀ x, .literal (.number x) ∈ e.operands → x.isFinite = true) ∧
      ∀ d, .literal (.span d) ∈ e.operands → d < .ofSeconds (100 * 3600) := by
  constructor
  · intro h
    exact ⟨fun x hx => h _ hx, fun d hd => h _ hd⟩
  · rintro ⟨hnumber, hspan⟩ o ho
    cases o with
    | field f => trivial
    | literal l =>
        cases l with
        | number x => exact hnumber x ho
        | span d => exact hspan d ho
        | _ => trivial

end Expr

/-- The literals of a query that was read can be said. -/
theorem sayable_of_ofText {q : String} {e : Expr} (h : Expr.ofText q = .ok e) : e.Sayable := by
  obtain ⟨-, ss, hss, hd⟩ := ofText_eq_ok_iff.mp h
  rintro (f | l) ho
  · trivial
  · obtain ⟨ts, hscan, rfl⟩ := symbols?_eq_some_iff.mp hss
    exact Literal.sayable_of_scannable (Token.scannable_of_mem q.toList hscan _ (hd.literal_mem ho))

/--
**Which queries survive being written and read again.**  Of a query that was read, the written
form is read as the same query exactly if its numbers are finite, its spans shorter than a
hundred hours and its texts free of characters whose escapes a query does not understand, if
its pairs lie at most sixty-four deep, and if the written form takes at most 4096 bytes.
-/
theorem ofText_render_iff {q : String} {e : Expr} (h : Expr.ofText q = .ok e) :
    Expr.ofText e.render = .ok e ↔
      (∀ x, .literal (.number x) ∈ e.operands → x.isFinite = true) ∧
      (∀ d, .literal (.span d) ∈ e.operands → d < .ofSeconds (100 * 3600)) ∧
      (∀ s, .literal (.text s) ∈ e.operands → ∀ c ∈ s.toList, Token.Readable c) ∧
      e.height ≤ 64 ∧ Text.byteLength e.render.toList ≤ 4096 := by
  have hsay := sayable_of_ofText h
  obtain ⟨-, ss, -, hd⟩ := ofText_eq_ok_iff.mp h
  have hrender : e.render.toList = e.written ++ [] := by simp [Expr.render]
  rw [← and_assoc, ← Expr.legible_iff, ← Expr.reread_eq_iff, ofText_eq_ok_iff, hrender]
  by_cases hlegible : e.Legible
  · rw [Expr.symbols?_written hsay hlegible delimited_nil]
    simp only [symbols?_nil, Option.map_some, List.append_nil, Option.some.injEq,
      exists_eq_left']
    constructor
    · rintro ⟨hbytes, hderives⟩
      obtain ⟨heq, hheight⟩ := derives_symbols hderives
      rw [← heq] at hheight
      exact ⟨hlegible, heq.symm, hheight, hbytes⟩
    · rintro ⟨-, heq, hheight, hbytes⟩
      rw [heq]
      exact ⟨hbytes, .single (hd.symbols deepestNesting hheight)⟩
  · rw [Expr.symbols?_written_eq_none hsay hlegible delimited_nil]
    simp [hlegible]

/-- Ninety minutes are written as an hour and a half, and a tab by its escape; both say the same
as before. -/
theorem ofText_render_ninety_minutes :
    Expr.ofText "total >= (00:90:00) and name == \"a\\tb\"" =
        .ok (.join .and (.compare .ge (.field .total) (.literal (.span (.ofSeconds 5400))))
          (.compare .eq (.field .name) (.literal (.text "a\tb")))) ∧
      Expr.ofText (Expr.join .and
          (.compare .ge (.field .total) (.literal (.span (.ofSeconds 5400))))
          (.compare .eq (.field .name) (.literal (.text "a\tb")))).render =
        .ok (.join .and (.compare .ge (.field .total) (.literal (.span (.ofSeconds 5400))))
          (.compare .eq (.field .name) (.literal (.text "a\tb")))) := by
  have hread : Expr.ofText "total >= (00:90:00) and name == \"a\\tb\"" =
      .ok (.join .and (.compare .ge (.field .total) (.literal (.span (.ofSeconds 5400))))
        (.compare .eq (.field .name) (.literal (.text "a\tb")))) := by
    decide +kernel
  refine ⟨hread, (ofText_render_iff hread).mpr ⟨?_, ?_, ?_, by decide, by decide +kernel⟩⟩
  · simp [Expr.operands]
  · simp only [Expr.operands, List.cons_append, List.nil_append, List.mem_cons, reduceCtorEq,
      Operand.literal.injEq, Literal.span.injEq, List.not_mem_nil, or_false, false_or]
    rintro _ rfl
    decide
  · simp only [Expr.operands, List.cons_append, List.nil_append, List.mem_cons, reduceCtorEq,
      Operand.literal.injEq, Literal.text.injEq, List.not_mem_nil, or_false, false_or]
    rintro _ rfl
    have hchars : "a\tb".toList = ['a', '\t', 'b'] := rfl
    rw [hchars, List.forall_mem_cons, List.forall_mem_cons, List.forall_mem_singleton]
    exact ⟨by decide, by decide, by decide⟩

end RollCall.Query
