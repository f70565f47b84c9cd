/-
How large the tree of a text can be.

A comparison takes three tokens at least, and a connective has two letters at least, so a
chain of `k` comparisons takes `5 * k - 2` bytes and no text has more comparisons than that
allows.  `Derives.comparisons_le` counts along the derivation, `Walk.widths_le` along the text.

Whoever goes through a tree from its root has as many calls open as it is high.  Groups bound
the height of nothing: in a chain without any bracket every term adds one level.  But the tree
is never as high as it has comparisons, so the length of the text bounds it after all.
-/
import RollCall.Proofs.Query.Bracketed
import RollCall.Proofs.Query.Kinds
import RollCall.Proofs.Query.Tiling

namespace RollCall.Query

/-! ### Bytes of tokens -/

/-- The fewest bytes that a symbol is written with. -/
def Symbol.width : Symbol → Nat
  | .connective _ => 2
  | _ => 1

theorem Symbol.width_pos (s : Symbol) : 0 < s.width := by
  cases s <;> exact Nat.succ_pos _

/-- The fewest bytes that some symbols are written with. -/
def widths (ss : List Symbol) : Nat :=
  (ss.map Symbol.width).sum

@[simp] theorem widths_nil : widths [] = 0 := rfl

@[simp] theorem widths_cons (s : Symbol) (ss : List Symbol) :
    widths (s :: ss) = s.width + widths ss :=
  List.sum_cons

@[simp] theorem widths_append (ss us : List Symbol) :
    widths (ss ++ us) = widths ss + widths us := by
  simp [widths]

namespace Token

/-- No token has fewer bytes than its symbol is written with. -/
theorem width_le_of_scan {c : Char} {tail cs : List Char} {s : Symbol}
    (h : scan c (tail ++ cs) = .ok (s, tail.length)) :
    s.width ≤ Text.byteLength (c :: tail) := by
  have hfirst := c.utf8Size_pos
  rw [Text.byteLength_cons]
  cases s with
  | connective k =>
      -- The word for a connective has a second letter.
      cases way_of_scan h with
      | word _ hmeans =>
          cases hmeans with
          | connective _ hword =>
              rw [List.take_left, ← String.toList_inj, String.toList_ofList] at hword
              cases tail with
              | nil => cases k <;> cases hword
              | cons d tail =>
                  have hsecond := d.utf8Size_pos
                  rw [Text.byteLength_cons, Symbol.width]
                  omega
  | _ =>
      show 1 ≤ _
      omega

end Token

/-- **The tokens of a walk take no fewer bytes than their symbols are written with.** -/
theorem Walk.widths_le {p q : Nat} {cs rest : List Char} {ts : List Token}
    (h : Walk p cs ts q rest) : p + widths (ts.map Token.symbol) ≤ q := by
  induction h with
  | here p cs => exact Nat.le_refl p
  | blank _ _ ih => omega
  | token _ hscan _ ih =>
      have hwidth := Token.width_le_of_scan hscan
      simp only [List.map_cons, widths_cons]
      omega

/-- So do the symbols of a text. -/
theorem widths_le_of_symbols? {q : String} {ss : List Symbol} (h : symbols? q.toList = some ss) :
    widths ss ≤ q.utf8ByteSize := by
  obtain ⟨ts, hscan, rfl⟩ := symbols?_eq_some_iff.mp h
  have hwalk := walk_of_scanFrom_eq_ok hscan
  obtain ⟨passed, hpassed, hstop, -⟩ := hwalk.tiles
  have hwidths := hwalk.widths_le
  rw [List.append_nil] at hpassed
  rw [hstop, ← hpassed, ← Text.utf8ByteSize_ofList, String.ofList_toList] at hwidths
  simpa [Tokens.symbols] using hwidths

/-! ### Comparisons -/

theorem IsOperand.widths_pos {ss : List Symbol} {o : Operand} (h : IsOperand ss o) :
    0 < widths ss := by
  obtain ⟨s, rest, rfl, -⟩ := h.head
  have hfirst := s.width_pos
  rw [widths_cons]
  omega

/-- **Every comparison but the first costs five bytes**, and the first one three. -/
theorem Derives.comparisons_le {ph : Phrase} {n : Nat} {ss : List Symbol} {e : Expr}
    (h : Derives ph n ss e) : 5 * e.comparisons.length ≤ widths ss + 2 := by
  induction h with
  | compare hl hr _ =>
      have hleft := hl.widths_pos
      have hright := hr.widths_pos
      simp only [Expr.comparisons, List.length_singleton, widths_append, widths_cons, Symbol.width]
      omega
  | group _ ih =>
      rw [widths_append, widths_cons]
      omega
  | single _ ih => exact ih
  | joined _ _ ihl ihr =>
      simp only [Expr.comparisons, List.length_append, widths_append, widths_cons, Symbol.width]
      omega

namespace Expr

/-- A tree is less high than it has comparisons. -/
theorem height_lt_comparisons (e : Expr) : e.height < e.comparisons.length := by
  induction e with
  | compare op l r => exact Nat.zero_lt_one
  | join c l r ihl ihr =>
      simp only [height, comparisons, List.length_append]
      omega

/-! ### Calls inside each other -/

section Fold

variable {β : Type} (leaf : Operator → Operand → Operand → β) (node : Connective → β → β → β)

/-- Goes through a tree with room for so many calls inside each other, and makes something of it
from its comparisons up; nothing, if the room is not enough. -/
def foldWithin : (room : Nat) → Expr → Option β
  | 0, _ => none
  | _ + 1, .compare op l r => some (leaf op l r)
  | room + 1, .join c l r =>
    (foldWithin room l).bind fun left => (foldWithin room r).map (node c left)

/-- **A tree takes one call more than it is high**, and whoever has that room makes of it what is
made without any limit. -/
theorem foldWithin_eq {f : Expr → β} (hleaf : ∀ op l r, f (.compare op l r) = leaf op l r)
    (hnode : ∀ c l r, f (.join c l r) = node c (f l) (f r)) (e : Expr) :
    ∀ room, foldWithin leaf node room e = if e.height < room then some (f e) else none := by
  induction e with
  | compare op l r =>
      intro room
      cases room with
      | zero => rfl
      | succ room => simp [foldWithin, height, hleaf]
  | join c l r ihl ihr =>
      intro room
      cases room with
      | zero => rfl
      | succ room =>
          rw [foldWithin, ihl room, ihr room, hnode]
          by_cases hl : l.height < room
          · by_cases hr : r.height < room
            · simp [hl, hr, height]
            · simp [hl, hr, height]
          · simp [hl, height]

end Fold

/-- The written form of a query, with room for so many calls inside each other. -/
def writtenWithin : (room : Nat) → Expr → Option (List Char) :=
  foldWithin (fun op l r => l.written ++ ' ' :: op.symbol.toList ++ ' ' :: r.written)
    fun c left right => '(' :: left ++ ' ' :: c.word.toList ++ ' ' :: right ++ [')']

theorem writtenWithin_eq (e : Expr) (room : Nat) :
    e.writtenWithin room = if e.height < room then some e.written else none := by
  unfold writtenWithin
  exact foldWithin_eq _ _ (f := written) (fun _ _ _ => rfl) (fun _ _ _ => rfl) e room

end Expr

namespace Predicate

/-- The predicate of a query, made with room for so many calls inside each other. -/
def ofExprWithin : (room : Nat) → Expr → Option Predicate :=
  Expr.foldWithin compare join

theorem ofExprWithin_eq (e : Expr) (room : Nat) :
    ofExprWithin room e = if e.height < room then some (ofExpr e) else none := by
  unfold ofExprWithin
  exact Expr.foldWithin_eq _ _ (f := ofExpr) (fun _ _ _ => rfl) (fun _ _ _ => rfl) e room

/-- What a query answers about an attendee, asked with room for so many calls inside each other.
The right side is not called where the left one fails or settles the matter. -/
def askWithin (a : Attendee) : (room : Nat) → Expr → Option (Except CompareError Bool)
  | 0, _ => none
  | _ + 1, .compare op l r => some (compare op l r a)
  | room + 1, .join c l r =>
    match askWithin a room l with
    | some (.ok result) => if result = settles c then some (.ok result) else askWithin a room r
    | other => other

/-- Asking takes no more room than the tree is high. -/
theorem askWithin_of_height_lt (a : Attendee) (e : Expr) :
    ∀ room, e.height < room → askWithin a room e = some (ofExpr e a) := by
  induction e with
  | compare op l r =>
      intro room h
      obtain ⟨room, rfl⟩ : ∃ k, room = k + 1 := ⟨room - 1, by omega⟩
      rfl
  | join c l r ihl ihr =>
      intro room h
      simp only [Expr.height] at h
      obtain ⟨room, rfl⟩ : ∃ k, room = k + 1 := ⟨room - 1, by omega⟩
      rw [askWithin, ihl room (by omega), ihr room (by omega), ofExpr, join]
      cases ofExpr l a with
      | error err => rfl
      | ok result =>
          by_cases hsettled : result = settles c
          · simp [hsettled]
          · simp [hsettled]

end Predicate

/-! ### Chains without brackets -/

namespace Expr

/-- Every right side is a comparison. -/
def LeansLeft : Expr → Prop
  | .compare _ _ _ => True
  | .join _ l r => l.LeansLeft ∧ ∃ op a b, r = .compare op a b

/-- A tree that leans to the left is as high as it can be. -/
theorem LeansLeft.height_eq {e : Expr} (h : e.LeansLeft) :
    e.height + 1 = e.comparisons.length := by
  induction e with
  | compare op l r => rfl
  | join c l r ihl _ =>
      obtain ⟨hl, op, a, b, rfl⟩ := h
      have hleft := ihl hl
      simp only [height, comparisons, List.length_append, List.length_singleton]
      omega

end Expr

/-- **Where no group is opened, the tree leans to the left.** -/
theorem Derives.leansLeft {ph : Phrase} {n : Nat} {ss : List Symbol} {e : Expr}
    (h : Derives ph n ss e) :
    n = 0 → e.LeansLeft ∧ (ph = .term → ∃ op l r, e = .compare op l r) := by
  induction h with
  | compare => intro _; exact ⟨trivial, fun _ => ⟨_, _, _, rfl⟩⟩
  | group => intro h; cases h
  | single _ ih => intro h; exact ⟨(ih h).1, fun hph => by cases hph⟩
  | joined _ _ ihl ihr =>
      intro h
      exact ⟨⟨(ihl h).1, (ihr h).2 rfl⟩, fun hph => by cases hph⟩

/-- The comparison of the truth with itself. -/
def truism : Expr :=
  .compare .eq (.literal (.truth true)) (.literal (.truth true))

/-- A comparison, and so many more of its kind behind it. -/
def chainText : (more : Nat) → List Char
  | 0 => truism.written
  | more + 1 => truism.written ++ ' ' :: (Connective.or.word.toList ++ ' ' :: chainText more)

/-- The links of such a chain. -/
def chainLinks (more : Nat) : List Link :=
  List.replicate more ⟨.or, truism.symbols, truism⟩

theorem symbols?_chainText (more : Nat) :
    symbols? (chainText more) =
      some (truism.symbols ++ (chainLinks more).flatMap Link.spelled) := by
  have hsay : truism.Sayable := Expr.sayable_compare.mpr ⟨trivial, trivial⟩
  have hlegible : truism.Legible := Expr.legible_compare.mpr ⟨trivial, trivial⟩
  have hreread : truism.reread = truism := rfl
  induction more with
  | zero =>
      have hscan := Expr.symbols?_written hsay hlegible delimited_nil
      rw [List.append_nil, symbols?_nil, hreread] at hscan
      exact hscan
  | succ more ih =>
      rw [chainText, Expr.symbols?_written hsay hlegible (delimited_space _), symbols?_space,
        symbols?_connective .or (delimited_space _), symbols?_space, ih, hreread]
      rfl

theorem byteLength_chainText (more : Nat) :
    Text.byteLength (chainText more) = 12 + 16 * more := by
  have htruism : Text.byteLength truism.written = 12 := by decide +kernel
  induction more with
  | zero => exact htruism
  | succ more ih =>
      have hword : Text.byteLength Connective.or.word.toList = 2 := by decide +kernel
      have hspace : ' '.utf8Size = 1 := rfl
      simp only [chainText, Text.byteLength_append, Text.byteLength_cons, htruism, hword, hspace,
        ih]
      omega

theorem comparisons_foldLinks_chain (more : Nat) (e : Expr) :
    (foldLinks e (chainLinks more)).comparisons.length = e.comparisons.length + more := by
  induction more generalizing e with
  | zero => rfl
  | succ more ih =>
      have hstep := ih (.join .or e truism)
      rw [Expr.comparisons, List.length_append] at hstep
      calc (foldLinks e (chainLinks (more + 1))).comparisons.length
          = (foldLinks (.join .or e truism) (chainLinks more)).comparisons.length := rfl
        _ = e.comparisons.length + 1 + more := hstep
        _ = e.comparisons.length + (more + 1) := by omega

/-- **A chain without brackets is accepted if its text is short enough**, however high the tree. -/
theorem exists_chain {more : Nat} (hshort : 12 + 16 * more ≤ longestQuery) :
    ∃ q e, Expr.ofText q = .ok e ∧ NestsWithin 0 q ∧ e.comparisons.length = more + 1 := by
  have hlist : (String.ofList (chainText more)).toList = chainText more := String.toList_ofList
  have hscan : symbols? (String.ofList (chainText more)).toList = _ :=
    hlist ▸ symbols?_chainText more
  have hquoted : ¬ Misquoted (.literal (.truth true)) (.literal (.truth true)) := by
    simp [Misquoted, Operand.SpellsStatus]
  have hterm : ∀ n, Derives .term n truism.symbols truism := fun n =>
    .compare (Operand.isOperand_symbols _) (Operand.isOperand_symbols _) hquoted
  have hderives : ∀ n, Derives .expr n (truism.symbols ++ (chainLinks more).flatMap Link.spelled)
      (foldLinks truism (chainLinks more)) := by
    intro n
    refine derives_foldLinks _ _ _ (.single (hterm n)) fun k hk => ?_
    rw [(List.mem_replicate.mp hk).2]
    exact hterm n
  refine ⟨String.ofList (chainText more), _, ofText_eq_ok_iff.mpr ⟨?_, _, hscan, hderives _⟩,
    ?_, ?_⟩
  · rw [hlist, byteLength_chainText]
    exact hshort
  · obtain ⟨ts, hts, hsymbols⟩ := symbols?_eq_some_iff.mp hscan
    exact ⟨ts, _, hts, hsymbols ▸ hderives 0⟩
  · rw [comparisons_foldLinks_chain, Nat.add_comm]
    rfl

/-- The tree of a text without groups is as high as its comparisons allow. -/
theorem height_of_nestsWithin_zero {q : String} {e : Expr} (h : Expr.ofText q = .ok e)
    (hn : NestsWithin 0 q) : e.height + 1 = e.comparisons.length := by
  obtain ⟨ss, -, hd⟩ := hn.derives (Nat.zero_le _) h
  exact (hd.leansLeft rfl).1.height_eq

/--
**The length of a text bounds the tree, and every way through it.**

A text of `n` bytes that is read as a query has at most `(n + 2) / 5` comparisons, so with the
limit on its length at most 819, and its tree is at most 818 high.  As many calls inside each
other as that allows are enough to write the query, to make its predicate and to ask it about
anybody.

The limit on groups does not do that.  Where no group is opened, the tree is as high as its
comparisons allow, and there are such texts of any height up to 255.
-/
theorem ofText_size :
    (∀ (q : String) (e : Expr), Expr.ofText q = .ok e →
      (e.comparisons.length ≤ (q.utf8ByteSize + 2) / 5 ∧ e.height < e.comparisons.length) ∧
      (e.comparisons.length ≤ 819 ∧ e.height ≤ 818) ∧
      (∀ room, (q.utf8ByteSize + 2) / 5 ≤ room ∨ 819 ≤ room →
        e.writtenWithin room = some e.written ∧
        Predicate.ofExprWithin room e = some (Predicate.ofExpr e) ∧
        ∀ a, Predicate.askWithin a room e = some (Predicate.ofExpr e a)) ∧
      (NestsWithin 0 q → e.height + 1 = e.comparisons.length)) ∧
    ∀ height ≤ 255, ∃ q e, Expr.ofText q = .ok e ∧ NestsWithin 0 q ∧ e.height = height := by
  constructor
  · intro q e h
    obtain ⟨hshort, ss, hss, hd⟩ := ofText_eq_ok_iff.mp h
    have hbytes : q.utf8ByteSize ≤ 4096 := by
      rw [← String.ofList_toList (s := q), Text.utf8ByteSize_ofList]
      exact hshort
    have hcount := hd.comparisons_le
    have hwidths := widths_le_of_symbols? hss
    have hheight := e.height_lt_comparisons
    refine ⟨⟨by omega, hheight⟩, ⟨by omega, by omega⟩, ?_, height_of_nestsWithin_zero h⟩
    intro room hroom
    have henough : e.height < room := by omega
    rw [Expr.writtenWithin_eq, Predicate.ofExprWithin_eq, if_pos henough, if_pos henough]
    exact ⟨rfl, rfl, fun a => Predicate.askWithin_of_height_lt a e room henough⟩
  · intro height hheight
    have hshort : 12 + 16 * height ≤ longestQuery := by
      unfold longestQuery
      omega
    obtain ⟨q, e, h, hn, hcount⟩ := exists_chain hshort
    have hhigh := height_of_nestsWithin_zero h hn
    exact ⟨q, e, h, hn, by omega⟩

/-- Two comparisons in nine bytes, the fewest that a text can have: the space behind the word is
the only one that is needed. -/
theorem ofText_size_nine_bytes :
    let one : Operand := .literal (.number ⟨4607182418800017408⟩)
    let e : Expr := .join .or (.compare .lt one one) (.compare .lt one one)
    Expr.ofText "1<1or 1<1" = .ok e ∧ e.comparisons.length ≤ 2 ∧
      e.writtenWithin 2 = some e.written ∧ e.writtenWithin 1 = none := by
  intro one e
  have h : Expr.ofText "1<1or 1<1" = .ok e := by decide +kernel
  obtain ⟨⟨hcount, -⟩, -, hwithin, -⟩ := ofText_size.1 _ _ h
  have hbytes : "1<1or 1<1".utf8ByteSize = 9 := by decide +kernel
  rw [hbytes] at hcount hwithin
  exact ⟨h, hcount, (hwithin 2 (.inl (Nat.le_refl _))).1, by decide +kernel⟩

end RollCall.Query
