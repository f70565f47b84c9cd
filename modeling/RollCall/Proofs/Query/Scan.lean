/-
The symbols of a text.

Where a token stands is no concern of the grammar, so the scan is reduced to the
symbols it finds, or to nothing if it fails.  What the first token takes off a text
then leaves a shorter text, of which the same can be said: `symbols?_of_scan` is the
one step by which the written form of a query is followed through.

Each kind of token is scanned under a condition on the character behind it.  What a
query is written with is always followed by a space, a closing bracket or the end.
-/
import RollCall.Proofs.Binary64.Numeral
import RollCall.Proofs.Instant.Pattern
import RollCall.Proofs.Query.Quoted
import RollCall.Proofs.Query.Reading
import RollCall.Proofs.Query.Ways
import RollCall.Proofs.Result
import RollCall.Query.Predicate

namespace RollCall.Query

/-- The symbols that a text is scanned to, if no fault is found. -/
def symbols? (cs : List Char) : Option (List Symbol) :=
  (Tokens.scanFrom 0 0 cs).toOption.map Tokens.symbols

theorem symbols?_eq_some_iff {cs : List Char} {ss : List Symbol} :
    symbols? cs = some ss ↔ ∃ ts, Tokens.scanFrom 0 0 cs = .ok ts ∧ ts.symbols = ss := by
  unfold symbols?
  cases Tokens.scanFrom 0 0 cs <;> simp [Except.toOption]

/-! ### One token at a time -/

theorem symbols_push (t : Token) (ts : Tokens) :
    (ts.push t).symbols = t.symbol :: ts.symbols := rfl

theorem toOption_map_push (t : Token) (r : Except ScanError Tokens) :
    (r.map (Tokens.push t)).toOption.map Tokens.symbols =
      (r.toOption.map Tokens.symbols).map (t.symbol :: ·) := by
  cases r <;> rfl

/-- Where a text begins does not change its symbols. -/
theorem symbols_scanFrom (skip position place : Nat) (cs : List Char) :
    (Tokens.scanFrom skip position cs).toOption.map Tokens.symbols =
      (Tokens.scanFrom skip place cs).toOption.map Tokens.symbols := by
  induction cs generalizing skip position place with
  | nil => cases skip <;> rfl
  | cons c cs ih =>
      cases skip with
      | succ skip => exact ih skip _ _
      | zero =>
          simp only [Tokens.scanFrom]
          split
          · exact ih 0 _ _
          · split
            · rfl
            · rw [toOption_map_push, toOption_map_push, ih]

@[simp] theorem symbols?_nil : symbols? [] = some [] := rfl

theorem symbols?_blank {c : Char} (h : Text.isBlank c = true) (cs : List Char) :
    symbols? (c :: cs) = symbols? cs := by
  simp only [symbols?, Tokens.scanFrom, h, if_true]
  exact symbols_scanFrom 0 _ _ cs

/-- **The first token, and the text behind it.** -/
theorem symbols?_of_scan {c : Char} {cs : List Char} {s : Symbol} {n : Nat}
    (hblank : Text.isBlank c = false) (h : Token.scan c cs = .ok (s, n)) :
    symbols? (c :: cs) = (symbols? (cs.drop n)).map (s :: ·) := by
  simp only [symbols?, Tokens.scanFrom, hblank, h, Bool.false_eq_true, if_false]
  rw [toOption_map_push, Tokens.scanFrom_skip]
  rw [symbols_scanFrom 0 _ 0]

theorem symbols?_of_fault {c : Char} {cs : List Char} {f : Fault}
    (hblank : Text.isBlank c = false) (h : Token.scan c cs = .error f) :
    symbols? (c :: cs) = none := by
  simp [symbols?, Tokens.scanFrom, hblank, h, Except.toOption]

/-- **A text is a query exactly if it is short enough and the grammar derives its symbols.** -/
theorem ofText_eq_ok_iff {q : String} {e : Expr} :
    Expr.ofText q = .ok e ↔
      Text.byteLength q.toList ≤ longestQuery ∧
        ∃ ss, symbols? q.toList = some ss ∧ Derives .expr deepestNesting ss e := by
  unfold Expr.ofText
  simp only [symbols?]
  by_cases hlong : longestQuery < Text.byteLength q.toList
  · simp [hlong, Nat.not_le.mpr hlong]
  · rw [if_neg hlong, Tokens.ofText]
    cases Tokens.scanFrom 0 0 q.toList with
    | error f => simp [Except.toOption]
    | ok ts => simp [Except.toOption, ofTokens_eq_ok_iff, Nat.le_of_not_lt hlong]

/-- The predicate of a text that is a query. -/
theorem predicate_ofText {q : String} {e : Expr} (h : Expr.ofText q = .ok e) :
    Predicate.ofText q = .ok (Predicate.ofExpr e) := by
  have hne : q.isEmpty = false := by
    rw [← Bool.not_eq_true, String.isEmpty_iff]
    rintro rfl
    cases h
  simp only [Predicate.ofText, request, hne, h, Bool.false_eq_true, if_false, Except.map,
    Predicate.ofRequest_some]

namespace Token

/-! ### What is found -/

/-- A symbol that some text begins with. -/
def Scannable (s : Symbol) : Prop :=
  ∃ c cs n, scan c cs = .ok (s, n)

theorem scannable_of_mem :
    ∀ (cs : List Char) {skip position : Nat} {ts : Tokens},
      Tokens.scanFrom skip position cs = .ok ts → ∀ s ∈ ts.symbols, Scannable s := by
  intro cs
  induction cs with
  | nil =>
      intro skip position ts h s hs
      cases skip <;> obtain rfl := Except.ok.inj h <;> simp [Tokens.symbols] at hs
  | cons c cs ih =>
      intro skip position ts h s hs
      cases skip with
      | succ skip => exact ih h s hs
      | zero =>
          simp only [Tokens.scanFrom] at h
          split at h
          · exact ih h s hs
          · split at h
            · cases h
            · rename_i symbol extra hscan
              obtain ⟨rest, hrest, rfl⟩ := Result.map_eq_ok.mp h
              rw [symbols_push] at hs
              rcases List.mem_cons.mp hs with rfl | hs
              · exact ⟨c, cs, extra, hscan⟩
              · exact ih hrest s hs

/-- The seconds of a span that is read, as a natural. -/
theorem readSpan_eq (cs : List Char) :
    readSpan cs =
      .ofSeconds ((Text.ofDigits (cs.take 2) * 3600 + Text.ofDigits ((cs.drop 3).take 2) * 60 +
        Text.ofDigits ((cs.drop 6).take 2) : Nat) : Int) := by
  simp [readSpan]

end Token

/-- What a text can say in a literal: a span has whole seconds and is not negative, and an instant
shows a date and a time of day. -/
def Literal.Sayable : Literal → Prop
  | .span d => ∃ seconds : Nat, d = .ofSeconds seconds
  | .instant t => ∃ date hour minute second, t.Shows date hour minute second
  | _ => True

/-- **Whatever literal is found can be said.** -/
theorem Literal.sayable_of_scannable {l : Literal} (h : Token.Scannable (.literal l)) :
    l.Sayable := by
  obtain ⟨c, cs, n, h⟩ := h
  cases Token.way_of_scan h with
  | instant hc _ hread => exact Instant.shows_of_read? hc hread
  | span => exact ⟨_, Token.readSpan_eq _⟩
  | text | number => trivial
  | word _ hmeans => cases hmeans <;> trivial

end RollCall.Query
