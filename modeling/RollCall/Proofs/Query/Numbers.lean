/-
Numbers in a text.

A numeral is found by its characters, and only then is a number read from them.  Whatever
reads the number might refuse, so the scan is given here once more with a reading of its own
and with that refusal among its results: `Tokens.ofTextBy`.  With the reading of this library
it is the scan, and with any that accepts the texts of the form of a numeral it refuses
nothing.

What is taken for a number is the longest text of that form, since the reader of numerals
takes it; the shapes of instants and spans are looked for before.
-/
import RollCall.Proofs.Binary64.Longest
import RollCall.Proofs.Query.Walk

namespace RollCall

/-- The number that a numeral stands for, if the whole text is one. -/
def Binary64.parse? (cs : List Char) : Option Binary64 :=
  (Numeral.read? cs).bind fun n => if n.text = cs then some n.value else none

/-- A well-formed numeral stands for its number. -/
theorem Binary64.Numeral.WellFormed.parse?_text {n : Numeral} (hn : n.WellFormed) :
    parse? n.text = some n.value := by
  have hread := hn.read?_append Text.stops_nil
  rw [List.append_nil] at hread
  simp [parse?, hread]

/-- The library reads every text of the form. -/
theorem Binary64.exists_parse? {cs : List Char} (h : cs ∈ numeralForm) :
    ∃ x, parse? cs = some x := by
  obtain ⟨n, hn, rfl⟩ := Numeral.mem_numeralForm.mp h
  exact ⟨n.value, hn.parse?_text⟩

namespace Query

/-! ### The scan with a reading of numbers -/

/-- Why a text has no tokens, if numbers may be refused. -/
inductive Refusal where
  | scan (e : ScanError)
  /-- a numeral that no number is read from -/
  | noNumber (position : Nat) (text : String)
deriving DecidableEq, Repr

/-- The symbol of a token whose characters are given, its number being what is read from them. -/
def Symbol.readBy (parse : List Char → Option Binary64) (lexeme : List Char) :
    Symbol → Option Symbol
  | .literal (.number _) => (parse lexeme).map fun x => .literal (.number x)
  | s => some s

namespace Tokens

/-- The tokens of a text, as `scanFrom` finds them, with a reading of numbers that may refuse. -/
def scanFromBy (parse : List Char → Option Binary64) :
    (skip : Nat) → (position : Nat) → List Char → Except Refusal Tokens
  | _, position, [] => .ok ⟨[], position⟩
  | skip + 1, position, c :: cs => scanFromBy parse skip (position + c.utf8Size) cs
  | 0, position, c :: cs =>
    if Text.isBlank c then scanFromBy parse 0 (position + c.utf8Size) cs
    else
      match Token.scan c cs with
      | .error fault => .error (.scan ⟨position, fault⟩)
      | .ok (symbol, extra) =>
        let lexeme := c :: cs.take extra
        match symbol.readBy parse lexeme with
        | none => .error (.noNumber position (String.ofList lexeme))
        | some symbol =>
          let token := ⟨symbol, String.ofList lexeme, position⟩
          (scanFromBy parse extra (position + c.utf8Size) cs).map (push token)

/-- The tokens of a text, with a reading of numbers that may refuse. -/
def ofTextBy (parse : List Char → Option Binary64) (text : String) : Except Refusal Tokens :=
  scanFromBy parse 0 0 text.toList

end Tokens

namespace Token

/-! ### Where a number is scanned -/

/-- Nothing but a numeral is scanned as a number. -/
theorem scanNumeral_of_number {c : Char} {cs : List Char} {x : Binary64} {k : Nat}
    (h : scan c cs = .ok (.literal (.number x), k)) :
    scanNumeral c cs = .ok (.literal (.number x), k) ∧
      (c.isDigit = true →
        fits instantShape (c :: cs) = false ∧ fits spanShape (c :: cs) = false) := by
  cases way_of_scan h with
  | number hshape h => exact ⟨h, hshape⟩
  | word _ hmeans => cases hmeans

/-- **A number is what is read from the longest text of the form of a numeral**, and no instant and
no span stands where it begins with a digit. -/
theorem number_of_scan {c : Char} {tail after : List Char} {x : Binary64}
    (h : scan c (tail ++ after) = .ok (.literal (.number x), tail.length)) :
    c :: tail ∈ Binary64.numeralForm ∧ Binary64.parse? (c :: tail) = some x ∧
      (∀ longer ∈ Binary64.numeralForm, longer <+: c :: tail ++ after → longer <+: c :: tail) ∧
      (c.isDigit = true →
        ¬ Shaped instantShape (c :: tail ++ after) ∧ ¬ Shaped spanShape (c :: tail ++ after)) := by
  obtain ⟨hnumeral, hshapes⟩ := scanNumeral_of_number h
  obtain ⟨n, taken, rest, hread, hn, htext, hcs, hlength, hx⟩ := scanNumeral_eq_ok hnumeral
  obtain rfl : tail = taken := List.append_inj_left hcs hlength
  obtain rfl : x = n.value := by
    injection hx with hx
    injection hx
  rw [← htext]
  refine ⟨Binary64.Numeral.mem_numeralForm.mpr ⟨n, hn, rfl⟩, hn.parse?_text, ?_, ?_⟩
  · intro longer hlonger hbegins
    rw [htext, List.cons_append] at hbegins
    exact Binary64.Numeral.prefix_of_read? hread hlonger hbegins
  · intro hc
    obtain ⟨hinstant, hspan⟩ := hshapes hc
    rw [← fits_iff, ← fits_iff, htext, List.cons_append, hinstant, hspan]
    exact ⟨Bool.false_ne_true, Bool.false_ne_true⟩

/-- The token with its number read again from its characters; the old one stays if it is refused. -/
def rereadBy (parse : List Char → Option Binary64) (t : Token) : Token :=
  { t with symbol := (t.symbol.readBy parse t.lexeme.toList).getD t.symbol }

/-- If the texts of the form are accepted, every symbol that is scanned is read again. -/
theorem readBy_of_scan {parse : List Char → Option Binary64}
    (hparse : ∀ cs ∈ Binary64.numeralForm, ∃ x, parse cs = some x) {c : Char}
    {tail after : List Char} {s : Symbol} (h : scan c (tail ++ after) = .ok (s, tail.length)) :
    ∃ s', s.readBy parse (c :: tail) = some s' := by
  cases s with
  | literal l =>
      cases l with
      | number x =>
          obtain ⟨y, hy⟩ := hparse _ (number_of_scan h).1
          exact ⟨.literal (.number y), by simp [Symbol.readBy, hy]⟩
      | _ => exact ⟨_, rfl⟩
  | _ => exact ⟨_, rfl⟩

/-- The library reads the numbers that are scanned. -/
theorem readBy_parse?_of_scan {c : Char} {tail after : List Char} {s : Symbol}
    (h : scan c (tail ++ after) = .ok (s, tail.length)) :
    s.readBy Binary64.parse? (c :: tail) = some s := by
  cases s with
  | literal l =>
      cases l with
      | number x => simp [Symbol.readBy, (number_of_scan h).2.1]
      | _ => rfl
  | _ => rfl

end Token

namespace Tokens

/-- The tokens with their numbers read again. -/
def rereadBy (parse : List Char → Option Binary64) (ts : Tokens) : Tokens :=
  { ts with list := ts.list.map (Token.rereadBy parse) }

/-- **A reading that accepts the texts of the form refuses nothing**: the tokens are found as ever,
and their numbers are what it reads. -/
theorem scanFromBy_eq {parse : List Char → Option Binary64}
    (hparse : ∀ cs ∈ Binary64.numeralForm, ∃ x, parse cs = some x) :
    ∀ (cs : List Char) (skip p : Nat),
      scanFromBy parse skip p cs = ((scanFrom skip p cs).map (rereadBy parse)).mapError .scan := by
  intro cs
  induction cs with
  | nil =>
      intro skip p
      cases skip <;> rfl
  | cons c cs ih =>
      intro skip p
      cases skip with
      | succ skip => exact ih skip _
      | zero =>
          cases hblank : Text.isBlank c with
          | true => simpa only [scanFromBy, scanFrom, hblank, if_true] using ih 0 _
          | false =>
              cases hscan : Token.scan c cs with
              | error f => simp [scanFromBy, scanFrom, hblank, hscan, Except.map, Except.mapError]
              | ok found =>
                  obtain ⟨s, n⟩ := found
                  obtain ⟨tail, after, rfl, rfl, -⟩ := Token.local_scan c _ _ _ hscan
                  obtain ⟨s', hs'⟩ := Token.readBy_of_scan hparse hscan
                  simp only [scanFromBy, scanFrom, hblank, hscan, Bool.false_eq_true, if_false,
                    List.take_left, hs', ih]
                  cases scanFrom tail.length (p + c.utf8Size) (tail ++ after) with
                  | error e => rfl
                  | ok ts =>
                      simp [Except.map, Except.mapError, push, rereadBy, Token.rereadBy, hs']

/-- **The scan is the one with the reading of the library.** -/
theorem ofTextBy_parse? (text : String) :
    ofTextBy Binary64.parse? text = (ofText text).mapError .scan := by
  rw [ofTextBy, ofText, scanFromBy_eq fun _ => Binary64.exists_parse?]
  cases h : scanFrom 0 0 text.toList with
  | error e => rfl
  | ok ts =>
      have hsame : ts.list.map (Token.rereadBy Binary64.parse?) = ts.list.map id := by
        refine List.map_congr_left fun t ht => ?_
        obtain ⟨-, c, tail, after, -, -, hlexeme, hscan⟩ :=
          (walk_of_scanFrom_eq_ok h).exists_scan t ht
        have hread : t.symbol.readBy Binary64.parse? t.lexeme.toList = some t.symbol := by
          rw [hlexeme, String.toList_ofList]
          exact Token.readBy_parse?_of_scan hscan
        simp [Token.rereadBy, hread]
      rw [List.map_id] at hsame
      simp [Except.map, Except.mapError, rereadBy, hsame]

end Tokens

/-! ### The numbers of a text -/

/--
A token is the longest numeral where it stands.

Its characters have the form of a numeral and no longer text of that form begins where they
begin; and if the first of them is a digit, what begins there has neither the shape of an
instant nor that of a span.
-/
def Token.LongestNumeral (text : List Char) (t : Token) : Prop :=
  ∃ before after, text = before ++ t.lexeme.toList ++ after ∧
    t.position = Text.byteLength before ∧ t.lexeme.toList ∈ Binary64.numeralForm ∧
    (∀ longer ∈ Binary64.numeralForm, longer <+: t.lexeme.toList ++ after →
      longer.length ≤ t.lexeme.toList.length) ∧
    ∀ c ∈ t.lexeme.toList.head?, c.isDigit = true →
      ¬ Shaped Token.instantShape (t.lexeme.toList ++ after) ∧
      ¬ Shaped Token.spanShape (t.lexeme.toList ++ after)

/-- A number among the tokens of a walk is the longest numeral. -/
theorem Walk.longestNumeral {q : Nat} {text rest : List Char} {ts : List Token}
    (h : Walk 0 text ts q rest) {t : Token} (ht : t ∈ ts) {x : Binary64}
    (hx : t.symbol = .literal (.number x)) : t.LongestNumeral text := by
  obtain ⟨before, c, tail, after, htext, hposition, hlexeme, hscan⟩ := h.exists_scan t ht
  rw [hx] at hscan
  obtain ⟨hform, -, hlongest, hshapes⟩ := Token.number_of_scan hscan
  have hspell : t.lexeme.toList = c :: tail := by rw [hlexeme, String.toList_ofList]
  rw [Token.LongestNumeral, hspell]
  refine ⟨before, after, by simp [htext], by simp [hposition], hform, ?_, ?_⟩
  · intro longer hlonger hbegins
    exact (hlongest longer hlonger hbegins).length_le
  · intro d hd
    obtain rfl : c = d := Option.some.inj hd
    exact hshapes

/--
**No numeral is refused, and every number is the longest numeral where it stands.**

Whatever reads the numbers, if it accepts the texts of the form of a numeral then no text
fails because a number is refused; and the scan of this library is the one with the reading
of this library.  The characters of every number that is found have the form, none longer
has it there, and where they begin with a digit neither an instant nor a span could stand.
-/
theorem ofText_numbers {parse : List Char → Option Binary64}
    (hparse : ∀ cs ∈ Binary64.numeralForm, ∃ x, parse cs = some x) (text : String) :
    (∀ position numeral, Tokens.ofTextBy parse text ≠ .error (.noNumber position numeral)) ∧
      Tokens.ofTextBy Binary64.parse? text = (Tokens.ofText text).mapError .scan ∧
      ∀ ts, Tokens.ofText text = .ok ts → ∀ t ∈ ts.list, ∀ x,
        t.symbol = .literal (.number x) → t.LongestNumeral text.toList := by
  refine ⟨?_, Tokens.ofTextBy_parse? text, ?_⟩
  · intro position numeral h
    rw [Tokens.ofTextBy, Tokens.scanFromBy_eq hparse, Result.mapError_eq_error] at h
    obtain ⟨e, -, he⟩ := h
    cases he
  · intro ts h t ht x hx
    exact (walk_of_scanFrom_eq_ok h).longestNumeral ht hx

/-- A point may be the last of the digits or the first, and an exponent goes with either. -/
theorem ofText_numbers_points :
    (∀ cs ∈ Binary64.numeralForm, ∃ x, Binary64.parse? cs = some x) ∧
      ∃ ts, Tokens.ofText "1.e5 -.5" = .ok ts ∧ ts.list.map Token.lexeme = ["1.e5", "-.5"] ∧
        ∀ t ∈ ts.list, t.LongestNumeral "1.e5 -.5".toList := by
  have hparse : ∀ cs ∈ Binary64.numeralForm, ∃ x, Binary64.parse? cs = some x :=
    fun _ => Binary64.exists_parse?
  have hscan : Tokens.ofText "1.e5 -.5" = .ok
      ⟨[⟨.literal (.number ⟨0x40F86A0000000000⟩), "1.e5", 0⟩,
        ⟨.literal (.number ⟨0xBFE0000000000000⟩), "-.5", 5⟩], 8⟩ := by decide +kernel
  have hlongest := (ofText_numbers hparse "1.e5 -.5").2.2 _ hscan
  refine ⟨hparse, _, hscan, rfl, List.forall_mem_cons.mpr ⟨?_, List.forall_mem_singleton.mpr ?_⟩⟩
  · exact hlongest _ (by simp) _ rfl
  · exact hlongest _ (by simp) _ rfl

end Query

end RollCall
