/-
The walk over a text.

`Walk p cs ts q rest` says that a scan which stands at place `p` in front of `cs` takes
the tokens `ts` and then stands at place `q` in front of `rest`.  It keeps the characters
that are left, so a token is always scanned with all that really follows it.  A scan of a
whole text is a walk to its end, and a scan that fails is a walk to the fault.
-/
import RollCall.Proofs.Query.Extent

namespace RollCall.Query

/-- From the first place to the second the scan passes over blanks and takes the tokens. -/
inductive Walk : Nat → List Char → List Token → Nat → List Char → Prop
  | here (p : Nat) (cs : List Char) : Walk p cs [] p cs
  | blank {p q : Nat} {c : Char} {cs rest : List Char} {ts : List Token}
      (hblank : Text.isBlank c = true) (h : Walk (p + c.utf8Size) cs ts q rest) :
      Walk p (c :: cs) ts q rest
  | token {p q : Nat} {c : Char} {tail cs rest : List Char} {s : Symbol} {ts : List Token}
      (hblank : Text.isBlank c = false) (hscan : Token.scan c (tail ++ cs) = .ok (s, tail.length))
      (h : Walk (p + Text.byteLength (c :: tail)) cs ts q rest) :
      Walk p (c :: tail ++ cs) (⟨s, String.ofList (c :: tail), p⟩ :: ts) q rest

namespace Tokens

/-- The tokens with others in front. -/
def pushAll (ts : List Token) (us : Tokens) : Tokens :=
  { us with list := ts ++ us.list }

/-! ### One step of the scan -/

theorem scanFrom_blank {c : Char} (h : Text.isBlank c = true) (p : Nat) (cs : List Char) :
    scanFrom 0 p (c :: cs) = scanFrom 0 (p + c.utf8Size) cs := by
  simp [scanFrom, h]

theorem scanFrom_token {c : Char} {tail cs : List Char} {s : Symbol}
    (hblank : Text.isBlank c = false) (hscan : Token.scan c (tail ++ cs) = .ok (s, tail.length))
    (p : Nat) :
    scanFrom 0 p (c :: tail ++ cs) =
      (scanFrom 0 (p + Text.byteLength (c :: tail)) cs).map
        (push ⟨s, String.ofList (c :: tail), p⟩) := by
  rw [List.cons_append]
  simp only [scanFrom, hblank, hscan, Bool.false_eq_true, if_false]
  rw [scanFrom_skip, List.take_left, List.drop_left, Text.byteLength_cons, Nat.add_assoc]

theorem scanFrom_fault {c : Char} {cs : List Char} {f : Fault} (hblank : Text.isBlank c = false)
    (hscan : Token.scan c cs = .error f) (p : Nat) : scanFrom 0 p (c :: cs) = .error ⟨p, f⟩ := by
  simp [scanFrom, hblank, hscan]

end Tokens

namespace Walk

open Tokens (scanFrom pushAll)

/-- **The scan of a text goes on where a walk ends.** -/
theorem scanFrom_eq {p q : Nat} {cs rest : List Char} {ts : List Token}
    (h : Walk p cs ts q rest) : scanFrom 0 p cs = (scanFrom 0 q rest).map (pushAll ts) := by
  induction h with
  | here p cs => cases scanFrom 0 p cs <;> rfl
  | blank hblank _ ih => rw [Tokens.scanFrom_blank hblank, ih]
  | @token _ q _ _ _ rest _ _ hblank hscan _ ih =>
      rw [Tokens.scanFrom_token hblank hscan, ih]
      cases scanFrom 0 q rest <;> rfl

/-- The symbols of a text are those of a walk, and of the text behind it. -/
theorem symbols?_eq {p q : Nat} {cs rest : List Char} {ts : List Token} (h : Walk p cs ts q rest) :
    symbols? cs = (symbols? rest).map (ts.map Token.symbol ++ ·) := by
  rw [symbols?, symbols?, symbols_scanFrom 0 0 p cs, symbols_scanFrom 0 0 q rest, h.scanFrom_eq]
  cases scanFrom 0 q rest with
  | error e => rfl
  | ok us => exact congrArg some List.map_append

/-- Two walks, one where the other ends. -/
theorem trans {p q r : Nat} {cs mid rest : List Char} {ts us : List Token}
    (h : Walk p cs ts q mid) (h' : Walk q mid us r rest) : Walk p cs (ts ++ us) r rest := by
  induction h with
  | here => exact h'
  | blank hblank _ ih => exact .blank hblank (ih h')
  | token hblank hscan _ ih => exact .token hblank hscan (ih h')

/-- Every token stands in the text, and is scanned there with all that follows it. -/
theorem exists_scan {p q : Nat} {cs rest : List Char} {ts : List Token}
    (h : Walk p cs ts q rest) : ∀ t ∈ ts, ∃ before c tail after,
      cs = before ++ (c :: tail ++ after) ∧ t.position = p + Text.byteLength before ∧
        t.lexeme = String.ofList (c :: tail) ∧
        Token.scan c (tail ++ after) = .ok (t.symbol, tail.length) := by
  induction h with
  | here => simp
  | @blank p _ b _ _ _ _ _ ih =>
      intro t ht
      obtain ⟨before, c, tail, after, rfl, hp, hlexeme, hscan⟩ := ih t ht
      exact ⟨b :: before, c, tail, after, rfl, by simp [hp, Nat.add_assoc], hlexeme, hscan⟩
  | @token p _ b front cs _ s _ _ hfirst _ ih =>
      refine List.forall_mem_cons.mpr ⟨⟨[], b, front, cs, rfl, rfl, rfl, hfirst⟩, ?_⟩
      intro t ht
      obtain ⟨before, c, tail, after, rfl, hp, hlexeme, hscan⟩ := ih t ht
      exact ⟨b :: front ++ before, c, tail, after, by simp, by simp [hp, Nat.add_assoc], hlexeme,
        hscan⟩

end Walk

/-- A scan walks until nothing is left or until no token begins where it stands. -/
theorem exists_walk : ∀ (length p : Nat) (cs : List Char), cs.length ≤ length →
    ∃ ts q rest, Walk p cs ts q rest ∧
      (rest = [] ∨ ∃ c tail f, rest = c :: tail ∧ Text.isBlank c = false ∧
        Token.scan c tail = .error f) := by
  intro length
  induction length with
  | zero =>
      intro p cs hlength
      obtain rfl := List.eq_nil_of_length_eq_zero (Nat.le_zero.mp hlength)
      exact ⟨[], p, [], .here p [], .inl rfl⟩
  | succ length ih =>
      intro p cs hlength
      cases cs with
      | nil => exact ⟨[], p, [], .here p [], .inl rfl⟩
      | cons c cs =>
          have hshorter : cs.length ≤ length := Nat.le_of_succ_le_succ hlength
          cases hblank : Text.isBlank c with
          | true =>
              obtain ⟨ts, q, rest, hwalk, hover⟩ := ih (p + c.utf8Size) cs hshorter
              exact ⟨ts, q, rest, .blank hblank hwalk, hover⟩
          | false =>
              cases hscan : Token.scan c cs with
              | error f => exact ⟨[], p, c :: cs, .here p _, .inr ⟨c, cs, f, rfl, hblank, hscan⟩⟩
              | ok found =>
                  obtain ⟨s, n⟩ := found
                  obtain ⟨tail, behind, rfl, rfl, -⟩ := Token.local_scan c _ _ _ hscan
                  have hbehind : behind.length ≤ length := by
                    rw [List.length_append] at hshorter
                    omega
                  obtain ⟨ts, q, rest, hwalk, hover⟩ :=
                    ih (p + Text.byteLength (c :: tail)) behind hbehind
                  exact ⟨_, q, rest, .token hblank hscan hwalk, hover⟩

/-- **A scan that succeeds has walked to the end**, and taken the tokens on the way. -/
theorem walk_of_scanFrom_eq_ok {p : Nat} {cs : List Char} {ts : Tokens}
    (h : Tokens.scanFrom 0 p cs = .ok ts) : Walk p cs ts.list ts.stop [] := by
  obtain ⟨us, q, rest, hwalk, hover⟩ := exists_walk cs.length p cs le_rfl
  rw [hwalk.scanFrom_eq] at h
  rcases hover with rfl | ⟨c, tail, f, rfl, hblank, hscan⟩
  · obtain rfl := Except.ok.inj h
    simpa [Tokens.pushAll] using hwalk
  · rw [Tokens.scanFrom_fault hblank hscan] at h
    cases h

/-- **A scan that fails has walked to its fault.** -/
theorem walk_of_scanFrom_eq_error {p : Nat} {cs : List Char} {e : ScanError}
    (h : Tokens.scanFrom 0 p cs = .error e) :
    ∃ ts c tail, Walk p cs ts e.position (c :: tail) ∧ Text.isBlank c = false ∧
      Token.scan c tail = .error e.fault := by
  obtain ⟨ts, q, rest, hwalk, hover⟩ := exists_walk cs.length p cs le_rfl
  rw [hwalk.scanFrom_eq] at h
  rcases hover with rfl | ⟨c, tail, f, rfl, hblank, hscan⟩
  · cases h
  · rw [Tokens.scanFrom_fault hblank hscan] at h
    obtain rfl := Except.error.inj h
    exact ⟨ts, c, tail, hwalk, hblank, hscan⟩

/-- **An operator of a text is what its characters spell**, and any other token spells none. -/
theorem operator_iff_of_mem {text : String} {ts : Tokens} (h : Tokens.ofText text = .ok ts)
    {t : Token} (ht : t ∈ ts.list) (op : Operator) :
    t.symbol = .operator op ↔ Operator.ofSymbol? t.lexeme = some op := by
  obtain ⟨before, c, tail, after, -, -, hlexeme, hscan⟩ :=
    (walk_of_scanFrom_eq_ok h).exists_scan t ht
  rw [Token.operator_iff hscan, List.take_left, hlexeme]

end RollCall.Query
