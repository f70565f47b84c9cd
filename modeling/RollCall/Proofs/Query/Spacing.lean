/-
Blanks between tokens do not matter.

Every token of a text is found again in front of a blank or the end, so its characters
may be written anywhere as long as others do not follow at once.  The first part shows that
for a whole text: the tokens are the same in any other spacing, and only stand elsewhere.

The reader takes no notice of where a token stands except to tell it in an error.  The
second part says that as an equation: to forget the places before a token is taken or
after it is the same.  Both together leave the query the same, and so is the error if there
is one, up to the places that it names.
-/
import RollCall.Proofs.Query.Walk
import RollCall.Query.Reader

namespace RollCall.Query

open Text (byteLength)

/-! ### Tokens in another spacing -/

/-- The token is found wherever its characters stand in front of a blank or the end. -/
def Token.Standalone (t : Token) : Prop :=
  ∃ c tail, t.lexeme = String.ofList (c :: tail) ∧ Text.isBlank c = false ∧
    ∀ rest, Separated rest → Token.scan c (tail ++ rest) = .ok (t.symbol, tail.length)

/-- **Every token of a text is found again on its own.** -/
theorem Walk.standalone {p q : Nat} {cs rest : List Char} {ts : List Token}
    (h : Walk p cs ts q rest) : ∀ t ∈ ts, t.Standalone := by
  induction h with
  | here => simp
  | blank _ _ ih => exact ih
  | @token _ _ c tail cs _ s _ hblank hscan _ ih =>
      refine List.forall_mem_cons.mpr ⟨⟨c, tail, rfl, hblank, ?_⟩, ih⟩
      obtain ⟨taken, behind, hcs, hlength, hagain⟩ := Token.local_scan c _ _ _ hscan
      obtain rfl : tail = taken := List.append_inj_left hcs hlength
      exact hagain

/-- A token and what stands behind it. -/
structure Spaced where
  token : Token
  gap : List Char

/-- The characters of tokens and of what stands behind them. -/
def spacedText (xs : List Spaced) : List Char :=
  xs.flatMap fun x => x.token.lexeme.toList ++ x.gap

/-- Tokens where they stand in the text that is made of them. -/
def spacedTokens : Nat → List Spaced → List Token
  | _, [] => []
  | p, x :: xs =>
    { x.token with position := p } ::
      spacedTokens (p + byteLength (x.token.lexeme.toList ++ x.gap)) xs

theorem length_spacedTokens (p : Nat) (xs : List Spaced) :
    (spacedTokens p xs).length = xs.length := by
  induction xs generalizing p with
  | nil => rfl
  | cons x xs ih => simp [spacedTokens, ih]

/-- Where each token stands. -/
theorem getElem?_spacedTokens (x : Spaced) (after : List Spaced) :
    ∀ (p : Nat) (before : List Spaced),
      (spacedTokens p (before ++ x :: after))[before.length]? =
        some { x.token with position := p + byteLength (spacedText before) } := by
  intro p before
  induction before generalizing p with
  | nil => rfl
  | cons y before ih =>
      simp only [List.cons_append, spacedTokens, List.length_cons, List.getElem?_cons_succ, ih]
      simp [spacedText, Nat.add_assoc]

/-- Only blanks stand behind the tokens, and at least one behind each but the last. -/
structure WellSpaced (xs : List Spaced) : Prop where
  blank : ∀ x ∈ xs, ∀ c ∈ x.gap, Text.isBlank c = true
  apart : ∀ x ∈ xs.dropLast, x.gap ≠ []

theorem WellSpaced.tail {x : Spaced} {xs : List Spaced} (h : WellSpaced (x :: xs)) :
    WellSpaced xs := by
  refine ⟨fun y hy => h.blank y (List.mem_cons_of_mem _ hy), fun y hy => h.apart y ?_⟩
  cases xs with
  | nil => cases hy
  | cons z xs => exact List.mem_cons_of_mem _ hy

/-- What follows a token begins with a blank, unless it is the end. -/
theorem WellSpaced.separated {x : Spaced} {xs : List Spaced} (h : WellSpaced (x :: xs)) :
    Separated (x.gap ++ spacedText xs) := by
  have hblank := h.blank x List.mem_cons_self
  cases hgap : x.gap with
  | cons c gap =>
      rw [hgap] at hblank
      exact separated_of_blank (hblank c List.mem_cons_self) _
  | nil =>
      cases xs with
      | nil => exact separated_nil
      | cons y xs => exact absurd hgap (h.apart x List.mem_cons_self)

theorem walk_blanks {w : List Char} (hw : ∀ c ∈ w, Text.isBlank c = true) (p : Nat)
    (cs : List Char) : Walk p (w ++ cs) [] (p + byteLength w) cs := by
  induction w generalizing p with
  | nil => exact .here p cs
  | cons c w ih =>
      rw [Text.byteLength_cons, ← Nat.add_assoc]
      exact .blank (hw c List.mem_cons_self) (ih (fun d hd => hw d (List.mem_cons_of_mem _ hd)) _)

/-- **Tokens are found again in any spacing.** -/
theorem walk_spaced {xs : List Spaced} (halone : ∀ x ∈ xs, x.token.Standalone)
    (h : WellSpaced xs) (p : Nat) :
    Walk p (spacedText xs) (spacedTokens p xs) (p + byteLength (spacedText xs)) [] := by
  induction xs generalizing p with
  | nil => exact .here p []
  | cons x xs ih =>
      have hrest := ih (fun y hy => halone y (List.mem_cons_of_mem _ hy)) h.tail
        (p + byteLength (x.token.lexeme.toList ++ x.gap))
      have hseparated := h.separated
      have hblank := h.blank x List.mem_cons_self
      obtain ⟨c, tail, hlexeme, hc, hscan⟩ := halone x List.mem_cons_self
      obtain ⟨⟨s, lexeme, place⟩, gap⟩ := x
      obtain rfl : lexeme = String.ofList (c :: tail) := hlexeme
      have hgap := walk_blanks hblank (p + byteLength (c :: tail)) (spacedText xs)
      have htext : spacedText (⟨⟨s, String.ofList (c :: tail), place⟩, gap⟩ :: xs) =
          c :: tail ++ (gap ++ spacedText xs) := by
        simp [spacedText, String.toList_ofList]
      simp only [String.toList_ofList, Text.byteLength_append, ← Nat.add_assoc] at hrest hgap
      rw [htext, Text.byteLength_append, Text.byteLength_append, ← Nat.add_assoc, ← Nat.add_assoc]
      simp only [spacedTokens, String.toList_ofList, Text.byteLength_append, ← Nat.add_assoc]
      exact .token hc (hscan _ hseparated) (hgap.trans hrest)

/-! ### Errors up to places -/

/-- A token without its place. -/
def Token.unplaced (t : Token) : Token :=
  { t with position := 0 }

/-- Tokens without their places. -/
def Tokens.unplaced (ts : Tokens) : Tokens :=
  ⟨ts.list.map Token.unplaced, 0⟩

/-- An error without the places that it names. -/
def Error.unplaced : Error → Error
  | .scan e => .scan { e with position := 0 }
  | .misplaced e => .misplaced ⟨0, e.found.map Token.unplaced, e.expected⟩
  | .misquoted t => .misquoted t.unplaced
  | .tooLong bytes => .tooLong bytes
  | .tooDeep => .tooDeep

namespace Reader

def Placed.unplaced (x : Placed) : Placed :=
  ⟨x.operand, x.token.unplaced⟩

def Due.unplaced : Due → Due
  | .term => .term
  | .afterOpening => .afterOpening
  | .leftClosing left => .leftClosing left.unplaced
  | .operator left => .operator left.unplaced
  | .right left op => Due.right left.unplaced op
  | .rightLiteral left op => .rightLiteral left.unplaced op
  | .rightClosing left op value => .rightClosing left.unplaced op value.unplaced
  | .joint e => .joint e

/-- A state that has forgotten where its tokens stand. -/
def State.unplaced (s : State) : State :=
  { s with due := s.due.unplaced }

/-- What a step gives, without the places in it. -/
def unplacedResult (r : Except Error State) : Except Error State :=
  (r.map State.unplaced).mapError Error.unplaced

theorem symbol_unplaced (t : Token) : t.unplaced.symbol = t.symbol := (rfl)

theorem plainOperand?_unplaced (t : Token) : plainOperand? t.unplaced = plainOperand? t := (rfl)

theorem bracketedOperand?_unplaced (t : Token) :
    bracketedOperand? t.unplaced = bracketedOperand? t := (rfl)

theorem State.refuse_unplaced (s : State) (t : Token) :
    s.unplaced.refuse t.unplaced = (s.refuse t).unplaced := by
  obtain ⟨due, pending, enclosing⟩ := s
  cases due <;> rfl

theorem operand_unplaced (x : Placed) : x.unplaced.operand = x.operand := (rfl)

theorem misquoted?_unplaced (l r : Placed) :
    misquoted? l.unplaced r.unplaced = (misquoted? l r).map Token.unplaced := by
  simp only [misquoted?, operand_unplaced]
  split
  · rfl
  split
  · rfl
  · rfl

theorem State.closeComparison_unplaced (s : State) (l : Placed) (op : Operator) (r : Placed) :
    s.unplaced.closeComparison l.unplaced op r.unplaced =
      unplacedResult (s.closeComparison l op r) := by
  simp only [State.closeComparison, misquoted?_unplaced]
  cases misquoted? l r <;> rfl

theorem State.takeTerm_unplaced (s : State) (t : Token) :
    s.unplaced.takeTerm t.unplaced = unplacedResult (s.takeTerm t) := by
  simp only [State.takeTerm, plainOperand?_unplaced, symbol_unplaced, State.refuse_unplaced]
  cases plainOperand? t with
  | some operand => rfl
  | none => by_cases h : t.symbol = .opening <;> simp only [h, if_true, if_false] <;> rfl

/-- **A step takes no notice of where its token stands.** -/
theorem State.take_unplaced (s : State) (t : Token) :
    s.unplaced.take t.unplaced = unplacedResult (s.take t) := by
  have hrefuse := s.refuse_unplaced t
  have hclose := s.closeComparison_unplaced
  obtain ⟨due, pending, enclosing⟩ := s
  simp only [State.unplaced] at hrefuse hclose ⊢
  cases due with
  | term => exact State.takeTerm_unplaced ⟨.term, pending, enclosing⟩ t
  | afterOpening =>
      simp only [State.take, Due.unplaced, bracketedOperand?_unplaced, State.openGroup]
      cases bracketedOperand? t with
      | some operand => rfl
      | none =>
          by_cases hroom : enclosing.length < deepestNesting
          · simp only [hroom, if_true]
            exact State.takeTerm_unplaced ⟨.term, none, pending :: enclosing⟩ t
          · simp only [hroom, if_false]
            rfl
  | leftClosing left =>
      simp only [State.take, Due.unplaced, symbol_unplaced] at hrefuse ⊢
      by_cases h : t.symbol = .closing
      · simp only [h, if_true]
        rfl
      · simp only [h, if_false, hrefuse]
        rfl
  | operator left =>
      simp only [State.take, Due.unplaced, symbol_unplaced] at hrefuse ⊢
      cases t.symbol with
      | operator op => rfl
      | _ => exact congrArg Except.error hrefuse
  | right left op =>
      simp only [State.take, Due.unplaced, plainOperand?_unplaced, symbol_unplaced] at hrefuse hclose ⊢
      cases plainOperand? t with
      | some operand => exact hclose left op ⟨operand, t⟩
      | none =>
          by_cases h : t.symbol = .opening
          · simp only [h, if_true]
            rfl
          · simp only [h, if_false, hrefuse]
            rfl
  | rightLiteral left op =>
      simp only [State.take, Due.unplaced, bracketedOperand?_unplaced] at hrefuse ⊢
      cases bracketedOperand? t with
      | some operand => rfl
      | none => exact congrArg Except.error hrefuse
  | rightClosing left op value =>
      simp only [State.take, Due.unplaced, symbol_unplaced] at hrefuse hclose ⊢
      by_cases h : t.symbol = .closing
      · simp only [h, if_true]
        exact hclose left op value
      · simp only [h, if_false, hrefuse]
        rfl
  | joint e =>
      simp only [State.take, Due.unplaced, symbol_unplaced] at hrefuse ⊢
      cases t.symbol with
      | connective c => rfl
      | closing =>
          cases enclosing with
          | nil => exact congrArg Except.error hrefuse
          | cons outer enclosing => rfl
      | _ => exact congrArg Except.error hrefuse

/-- Nor do any number of steps. -/
theorem State.takeAll_unplaced (s : State) (ts : List Token) :
    s.unplaced.takeAll (ts.map Token.unplaced) = unplacedResult (s.takeAll ts) := by
  induction ts generalizing s with
  | nil => rfl
  | cons t ts ih =>
      simp only [List.map_cons, State.takeAll, State.take_unplaced]
      cases s.take t with
      | ok next => exact ih next
      | error e => rfl

theorem State.finish_unplaced (s : State) (stop : Nat) :
    s.unplaced.finish 0 = (s.finish stop).mapError Error.unplaced := by
  obtain ⟨due, pending, enclosing⟩ := s
  cases due with
  | joint e => cases enclosing <;> rfl
  | afterOpening =>
      simp only [State.finish, State.unplaced, Due.unplaced, State.openGroup]
      by_cases hroom : enclosing.length < deepestNesting
      · simp only [hroom, if_true]
        rfl
      · simp only [hroom, if_false]
        rfl
  | _ => rfl

end Reader

/-- **The reader takes no notice of where tokens stand**, but for the places in its errors. -/
theorem ofTokens_unplaced (ts : Tokens) :
    Expr.ofTokens ts.unplaced = (Expr.ofTokens ts).mapError Error.unplaced := by
  have htake := Reader.start.takeAll_unplaced ts.list
  simp only [Expr.ofTokens, Tokens.unplaced]
  have hstart : Reader.start.unplaced = Reader.start := rfl
  rw [hstart] at htake
  rw [htake]
  cases Reader.start.takeAll ts.list with
  | error e => rfl
  | ok s => exact s.finish_unplaced ts.stop

/-! ### The query in another spacing -/

theorem map_unplaced_spacedTokens (p : Nat) (xs : List Spaced) :
    (spacedTokens p xs).map Token.unplaced = xs.map fun x => x.token.unplaced := by
  induction xs generalizing p with
  | nil => rfl
  | cons x xs ih =>
      rw [spacedTokens, List.map_cons, List.map_cons, ih]
      rfl

/-- A short text is read as its tokens are. -/
theorem ofText_eq_ofTokens {text : String} {ts : Tokens} (h : Tokens.ofText text = .ok ts)
    (hshort : byteLength text.toList ≤ longestQuery) : Expr.ofText text = Expr.ofTokens ts := by
  simp only [Expr.ofText, if_neg (Nat.not_lt.mpr hshort), h]

/--
**Blanks between tokens do not matter.**

The tokens of a text, written with any blanks in front, any behind and at least one between
two of them, are found again: as many, with the same symbols and the same characters, each
where it now stands.  So if neither text is too long, both are the same query, or both are
none for the same reason, up to the places that it names.
-/
theorem ofText_respaced {text : String} {ts : Tokens} (h : Tokens.ofText text = .ok ts)
    {w : List Char} (hw : ∀ c ∈ w, Text.isBlank c = true) {xs : List Spaced}
    (hxs : WellSpaced xs) (htokens : xs.map Spaced.token = ts.list) :
    ∃ ts', Tokens.ofText (String.ofList (w ++ spacedText xs)) = .ok ts' ∧
      ts'.stop = byteLength (w ++ spacedText xs) ∧ ts'.list.length = ts.list.length ∧
      (∀ before x after, xs = before ++ x :: after →
        ts'.list[before.length]? =
          some { x.token with position := byteLength (w ++ spacedText before) }) ∧
      (byteLength text.toList ≤ longestQuery → byteLength (w ++ spacedText xs) ≤ longestQuery →
        (Expr.ofText (String.ofList (w ++ spacedText xs))).mapError Error.unplaced =
          (Expr.ofText text).mapError Error.unplaced) := by
  have halone : ∀ x ∈ xs, x.token.Standalone := by
    intro x hx
    refine (walk_of_scanFrom_eq_ok h).standalone x.token ?_
    rw [← htokens]
    exact List.mem_map_of_mem hx
  have hwalk := (walk_blanks hw 0 (spacedText xs)).trans (walk_spaced halone hxs _)
  let ts' : Tokens := ⟨spacedTokens (0 + byteLength w) xs, byteLength (w ++ spacedText xs)⟩
  have hscan : Tokens.ofText (String.ofList (w ++ spacedText xs)) = .ok ts' := by
    rw [Tokens.ofText, String.toList_ofList, hwalk.scanFrom_eq]
    simp [ts', Tokens.scanFrom, Except.map, Tokens.pushAll]
  have hsame : ts'.unplaced = ts.unplaced := by
    simp only [Tokens.unplaced, ts', map_unplaced_spacedTokens, ← htokens, List.map_map]
    rfl
  refine ⟨ts', hscan, rfl, ?_, ?_, ?_⟩
  · rw [length_spacedTokens, ← htokens, List.length_map]
  · rintro before x after rfl
    rw [Text.byteLength_append, ← Nat.zero_add (byteLength w)]
    exact getElem?_spacedTokens x after _ before
  · intro hshort hshort'
    rw [← String.toList_ofList (l := w ++ spacedText xs)] at hshort'
    rw [ofText_eq_ofTokens h hshort, ofText_eq_ofTokens hscan hshort', ← ofTokens_unplaced,
      ← ofTokens_unplaced, hsame]

/-- Blanks of several kinds around the tokens of a text that has none but within an instant. -/
theorem ofText_respaced_instant :
    ∃ ts', Tokens.ofText "\u3000first_join\t<\n( 2021-03-15 09:30:00\u00a0)\u3000" = .ok ts' ∧
      ts'.stop = 43 ∧ ts'.list.length = 5 ∧
      ts'.list[3]? = some ⟨.literal (.instant ⟨1615800600, 0, by decide⟩), "2021-03-15 09:30:00", 18⟩ ∧
      (Expr.ofText "\u3000first_join\t<\n( 2021-03-15 09:30:00\u00a0)\u3000").mapError
          Error.unplaced =
        (Expr.ofText "first_join<(2021-03-15 09:30:00)").mapError Error.unplaced := by
  let xs : List Spaced :=
    [⟨⟨.field .firstJoin, "first_join", 0⟩, ['\t']⟩, ⟨⟨.operator .lt, "<", 10⟩, ['\n']⟩,
      ⟨⟨.opening, "(", 11⟩, [' ']⟩,
      ⟨⟨.literal (.instant ⟨1615800600, 0, by decide⟩), "2021-03-15 09:30:00", 12⟩, ['\u00a0']⟩,
      ⟨⟨.closing, ")", 31⟩, ['\u3000']⟩]
  have h : Tokens.ofText "first_join<(2021-03-15 09:30:00)" = .ok ⟨xs.map Spaced.token, 32⟩ := by
    decide +kernel
  have hw : ∀ c ∈ ['\u3000'], Text.isBlank c = true := List.forall_mem_singleton.mpr rfl
  have hxs : WellSpaced xs := ⟨by simp [xs, Text.isBlank], by simp [xs]⟩
  obtain ⟨ts', hscan, hstop, hlength, hplaces, hsame⟩ := ofText_respaced h hw hxs rfl
  have htext : String.ofList (['\u3000'] ++ spacedText xs) =
      "\u3000first_join\t<\n( 2021-03-15 09:30:00\u00a0)\u3000" := by decide +kernel
  rw [htext] at hscan hsame
  refine ⟨ts', hscan, hstop.trans (by decide +kernel), hlength, ?_,
    hsame (by decide +kernel) (by decide +kernel)⟩
  exact (hplaces (xs.take 3) _ (xs.drop 4) rfl).trans (by decide +kernel)

end RollCall.Query
