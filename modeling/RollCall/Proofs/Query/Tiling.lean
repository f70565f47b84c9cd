/-
Tokens tile the text.

Nothing of a text is lost between two tokens but blanks.  `Tiles` says so of the part of a
text that a walk has passed over, and each step of the walk adds to it at the front: a
blank, which is covered, or a token, which stands there.  The end of the text is no token
of its own here but the place `stop`, which is where the walk ends.

The places at which the text is cut are those where the walk stands and those that the
cursor comes by within a token, the token included at which the scan fails.
-/
import RollCall.Proofs.Query.Cursor

namespace RollCall

namespace Text

/-! ### Boundaries -/

theorem utf8ByteSize_ofList (cs : List Char) : (String.ofList cs).utf8ByteSize = byteLength cs := by
  induction cs with
  | nil => rfl
  | cons c cs ih =>
      rw [String.ofList_cons, String.utf8ByteSize_append, String.utf8ByteSize_singleton, ih,
        byteLength_cons]

/-- A place between two parts of a text is one between characters. -/
theorem isValid_of_append {text : String} {before after : List Char}
    (h : text.toList = before ++ after) : String.Pos.Raw.IsValid text ⟨byteLength before⟩ := by
  rw [String.Pos.Raw.isValid_iff_exists_append]
  refine ⟨String.ofList before, String.ofList after, ?_, ?_⟩
  · rw [← String.ofList_append, ← h, String.ofList_toList]
  · rw [String.Pos.Raw.ext_iff, String.byteIdx_rawEndPos, utf8ByteSize_ofList]

end Text

namespace Query

open Text (byteLength)

/-- The place behind a token. -/
def Token.stop (t : Token) : Nat :=
  t.position + byteLength t.lexeme.toList

/-! ### Tiles -/

/-- The tokens stand in a text that begins at the given place, one behind the other, and what lies
between them is blank. -/
structure Tiles (p : Nat) (text : List Char) (ts : List Token) : Prop where
  lexeme_ne_empty : ∀ t ∈ ts, t.lexeme ≠ ""
  /-- a token is what the text has at its place -/
  stands : ∀ t ∈ ts, ∃ before after, text = before ++ t.lexeme.toList ++ after ∧
    t.position = p + byteLength before
  /-- a token ends where the next one begins, or in front of it -/
  ordered : ts.Pairwise fun t u => t.stop ≤ u.position
  /-- a byte is one of a token or one of a blank -/
  covered : ∀ i, p ≤ i → i < p + byteLength text →
    (∃ t ∈ ts, t.position ≤ i ∧ i < t.stop) ∨
      ∃ before c after, text = before ++ c :: after ∧ Text.isBlank c = true ∧
        p + byteLength before ≤ i ∧ i < p + byteLength before + c.utf8Size

theorem tiles_nil (p : Nat) : Tiles p [] [] where
  lexeme_ne_empty := by simp
  stands := by simp
  ordered := .nil
  covered := fun i hlow hhigh => absurd hhigh (Nat.not_lt.mpr hlow)

theorem Tiles.le_position {p : Nat} {text : List Char} {ts : List Token} (h : Tiles p text ts)
    {t : Token} (ht : t ∈ ts) : p ≤ t.position := by
  obtain ⟨before, after, -, hp⟩ := h.stands t ht
  omega

/-- What holds of each token of the rest. -/
theorem Tiles.stands_append {p : Nat} {text front : List Char} {ts : List Token}
    (h : Tiles (p + byteLength front) text ts) {t : Token} (ht : t ∈ ts) :
    ∃ before after, front ++ text = before ++ t.lexeme.toList ++ after ∧
      t.position = p + byteLength before := by
  obtain ⟨before, after, rfl, hp⟩ := h.stands t ht
  exact ⟨front ++ before, after, by simp, by rw [hp, Text.byteLength_append, Nat.add_assoc]⟩

/-- What holds of each byte of the rest. -/
theorem Tiles.covered_append {p : Nat} {text front : List Char} {ts : List Token}
    (h : Tiles (p + byteLength front) text ts) {i : Nat} (hlow : p + byteLength front ≤ i)
    (hhigh : i < p + byteLength (front ++ text)) :
    (∃ t ∈ ts, t.position ≤ i ∧ i < t.stop) ∨
      ∃ before c after, front ++ text = before ++ c :: after ∧ Text.isBlank c = true ∧
        p + byteLength before ≤ i ∧ i < p + byteLength before + c.utf8Size := by
  rw [Text.byteLength_append, ← Nat.add_assoc] at hhigh
  rcases h.covered i hlow hhigh with htoken | ⟨before, c, after, rfl, hblank, hfrom, hto⟩
  · exact .inl htoken
  · refine .inr ⟨front ++ before, c, after, by simp, hblank, ?_, ?_⟩
    · rw [Text.byteLength_append, ← Nat.add_assoc]
      exact hfrom
    · rw [Text.byteLength_append, ← Nat.add_assoc]
      exact hto

theorem Tiles.blank {p : Nat} {c : Char} {text : List Char} {ts : List Token}
    (hblank : Text.isBlank c = true) (h : Tiles (p + c.utf8Size) text ts) :
    Tiles p (c :: text) ts := by
  have hrest : Tiles (p + byteLength [c]) text ts := h
  refine ⟨h.lexeme_ne_empty, fun t ht => hrest.stands_append ht, h.ordered, ?_⟩
  intro i hlow hhigh
  by_cases hi : i < p + c.utf8Size
  · exact .inr ⟨[], c, text, rfl, hblank, hlow, hi⟩
  · exact hrest.covered_append (Nat.le_of_not_lt hi) hhigh

theorem Tiles.token {p : Nat} {c : Char} {tail text : List Char} {ts : List Token} (s : Symbol)
    (h : Tiles (p + byteLength (c :: tail)) text ts) :
    Tiles p (c :: tail ++ text) (⟨s, String.ofList (c :: tail), p⟩ :: ts) := by
  have hspell : (String.ofList (c :: tail)).toList = c :: tail := String.toList_ofList
  constructor
  · refine List.forall_mem_cons.mpr ⟨?_, h.lexeme_ne_empty⟩
    intro hempty
    have hlexeme : String.ofList (c :: tail) = "" := hempty
    rw [hlexeme] at hspell
    cases hspell
  · refine List.forall_mem_cons.mpr ⟨⟨[], text, ?_, rfl⟩, fun t ht => h.stands_append ht⟩
    rw [hspell, List.nil_append]
  · refine List.pairwise_cons.mpr ⟨fun t ht => ?_, h.ordered⟩
    rw [Token.stop, hspell]
    exact h.le_position ht
  · intro i hlow hhigh
    by_cases hi : i < p + byteLength (c :: tail)
    · refine .inl ⟨_, List.mem_cons_self, hlow, ?_⟩
      rw [Token.stop, hspell]
      exact hi
    · refine (h.covered_append (Nat.le_of_not_lt hi) hhigh).imp_left ?_
      rintro ⟨t, ht, hi⟩
      exact ⟨t, List.mem_cons_of_mem _ ht, hi⟩

/-- **The tokens of a walk tile what it has passed over.** -/
theorem Walk.tiles {p q : Nat} {cs rest : List Char} {ts : List Token}
    (h : Walk p cs ts q rest) :
    ∃ passed, cs = passed ++ rest ∧ q = p + byteLength passed ∧ Tiles p passed ts := by
  induction h with
  | here p => exact ⟨[], rfl, rfl, tiles_nil p⟩
  | @blank _ _ c _ _ _ hblank _ ih =>
      obtain ⟨passed, rfl, rfl, htiles⟩ := ih
      exact ⟨c :: passed, rfl, by simp [Nat.add_assoc], htiles.blank hblank⟩
  | @token _ _ c tail _ _ s _ _ _ _ ih =>
      obtain ⟨passed, rfl, rfl, htiles⟩ := ih
      exact ⟨c :: tail ++ passed, by simp, by simp [Nat.add_assoc], htiles.token s⟩

/-! ### Cuts -/

/-- The places of a text where the walk stands, and those the cursor comes by within a token or
within what no token begins with. -/
inductive Cut (text : List Char) : Nat → Prop
  | walk {ts : List Token} {q : Nat} {rest : List Char} (h : Walk 0 text ts q rest) : Cut text q
  | cursor {ts : List Token} {q : Nat} {c : Char} {cs : List Char}
      (h : Walk 0 text ts q (c :: cs)) (hblank : Text.isBlank c = false) (k : Nat) :
      Cut text (q + ((Token.strides c cs).take k).sum)

/-- **A text is cut between characters only.** -/
theorem Cut.exists_append {text : List Char} {q : Nat} (h : Cut text q) :
    ∃ before after, text = before ++ after ∧ q = byteLength before := by
  cases h with
  | walk h =>
      obtain ⟨passed, rfl, rfl, -⟩ := h.tiles
      exact ⟨passed, _, rfl, Nat.zero_add _⟩
  | @cursor _ _ c cs h hblank k =>
      obtain ⟨passed, rfl, rfl, -⟩ := h.tiles
      obtain ⟨before, after, hcs, hsum⟩ := ((Token.keepsPace_strides c).whole cs).exists_sum k
      refine ⟨passed ++ before, after, by rw [hcs, List.append_assoc], ?_⟩
      rw [hsum, Nat.zero_add, Text.byteLength_append]

/-- What is cut off where the walk has come to stands there, and the text is cut behind it. -/
theorem Cut.of_sliced? {text : List Char} {ts : List Token} {q : Nat} {c : Char} {cs : List Char}
    (h : Walk 0 text ts q (c :: cs)) (hblank : Text.isBlank c = false) {slice : List Char}
    (hslice : Token.sliced? c cs (Token.scan c cs) = some slice) :
    (∃ before after, text = before ++ slice ++ after ∧ q = byteLength before) ∧
      Cut text (q + byteLength slice) := by
  obtain ⟨⟨after, hafter⟩, k, hk⟩ := (Token.keepsPace_strides c).reaches cs slice hslice
  constructor
  · obtain ⟨passed, rfl, rfl, -⟩ := h.tiles
    exact ⟨passed, after, by rw [← hafter, List.append_assoc], Nat.zero_add _⟩
  · rw [← hk]
    exact .cursor h hblank k

/-- A token begins where the walk has come to, and ends where the cursor comes by. -/
theorem Walk.cut_of_mem {text cs : List Char} {us : List Token} {p : Nat}
    (hfront : Walk 0 text us p cs) {q : Nat} {rest : List Char} {ts : List Token}
    (h : Walk p cs ts q rest) : ∀ t ∈ ts, Cut text t.position ∧ Cut text t.stop := by
  induction h generalizing us with
  | here => simp
  | blank hblank _ ih => exact ih (hfront.trans (.blank hblank (.here _ _)))
  | @token p _ c tail cs _ s _ hblank hscan _ ih =>
      refine List.forall_mem_cons.mpr ⟨⟨.walk hfront, ?_⟩, ?_⟩
      · have hslice : Token.sliced? c (tail ++ cs) (Token.scan c (tail ++ cs)) =
            some (c :: tail) := by
          rw [hscan, Token.sliced?, List.take_left]
        rw [Token.stop, String.toList_ofList]
        exact (Cut.of_sliced? hfront hblank hslice).2
      · exact ih (hfront.trans (.token hblank hscan (.here _ _)))

/--
**The tokens of a text tile it, and the text is cut between characters only.**

If the scan succeeds, its tokens stand in the text one behind the other, none of them empty,
all bytes that belong to none of them belong to blanks, and the text ends where the scan
says.  If it fails, the fault stands where the walk has come to, and what it quotes is what
the text has there.  In both cases every place at which the text is cut on the way is one
between two characters.
-/
theorem ofText_tiles (text : String) :
    (∀ ts, Tokens.ofText text = .ok ts →
      Tiles 0 text.toList ts.list ∧ ts.stop = text.utf8ByteSize ∧
        (∀ t ∈ ts.list, Cut text.toList t.position ∧ Cut text.toList t.stop) ∧
        Cut text.toList ts.stop) ∧
      (∀ e, Tokens.ofText text = .error e → Cut text.toList e.position ∧
        ∀ quoted, e.fault.quoted? = some quoted →
          (∃ before after, text.toList = before ++ quoted.toList ++ after ∧
            e.position = byteLength before) ∧
          Cut text.toList (e.position + byteLength quoted.toList)) ∧
      ∀ q, Cut text.toList q → String.Pos.Raw.IsValid text ⟨q⟩ := by
  refine ⟨?_, ?_, ?_⟩
  · intro ts h
    have hwalk := walk_of_scanFrom_eq_ok h
    obtain ⟨passed, hpassed, hstop, htiles⟩ := hwalk.tiles
    rw [List.append_nil] at hpassed
    rw [← hpassed] at hstop htiles
    refine ⟨htiles, ?_, Walk.cut_of_mem (.here 0 _) hwalk, .walk hwalk⟩
    rw [hstop, Nat.zero_add, ← Text.utf8ByteSize_ofList, String.ofList_toList]
  · intro e h
    obtain ⟨ts, c, tail, hwalk, hblank, hscan⟩ := walk_of_scanFrom_eq_error h
    refine ⟨.walk hwalk, fun quoted hquoted => Cut.of_sliced? hwalk hblank ?_⟩
    rw [hscan, Token.sliced?, hquoted, Option.map_some]
  · intro q h
    obtain ⟨before, after, htext, rfl⟩ := h.exists_append
    exact Text.isValid_of_append htext

end Query

end RollCall
