/-
Any text can be asked for.

Between quotation marks a text is spelled with a backslash in front of every backslash and every
mark, and no other character is changed.  That is enough for every text, since a backslash is
never left alone in front of a character that it would have a meaning with: `readText_spelled`
takes the text back one character at a time.

A query for a name is spelled so, and its predicate says of an attendee what the operator says
of two texts.
-/
import RollCall.Proofs.Operator
import RollCall.Proofs.Query.RoundTrip

namespace RollCall.Query

namespace Token

/-- A character as it is spelled between quotation marks. -/
def spell (c : Char) : List Char :=
  if c = '\\' ∨ c = '"' then ['\\', c] else [c]

/-- A text as it is spelled between quotation marks, with the marks. -/
def spelled (s : String) : String :=
  "\"" ++ String.ofList (s.toList.flatMap spell) ++ "\""

theorem readText_spell (c : Char) (cs : List Char) :
    readText (spell c ++ cs) =
      (readText cs).map fun (text, n) => ([c] ++ text, n + (spell c).length) := by
  by_cases hc : c = '\\' ∨ c = '"'
  · have hunescape : unescape c = [c] := by
      rcases hc with rfl | rfl <;> rfl
    rw [spell, if_pos hc, List.cons_append, List.cons_append, List.nil_append, readText_backslash,
      hunescape]
    rfl
  · obtain ⟨hback, hmark⟩ := not_or.mp hc
    rw [spell, if_neg hc, List.cons_append, List.nil_append, readText_cons hmark hback]
    rfl

/-- **A text is read as it was before it was spelled.** -/
theorem readText_spelled (s rest : List Char) :
    readText (s.flatMap spell ++ '"' :: rest) = some (s, (s.flatMap spell).length + 1) := by
  have hread := readText_flatMap readText_spell s rest
  rwa [List.flatMap_singleton'] at hread

theorem symbols?_spelled (s : String) (rest : List Char) :
    symbols? ((spelled s).toList ++ rest) =
      (symbols? rest).map (.literal (.text s) :: ·) := by
  have htext : (spelled s).toList = '"' :: (s.toList.flatMap spell ++ ['"']) := by
    simp [spelled]
  rw [htext]
  refine symbols?_append rfl ?_
  have hread := readText_spelled s.toList rest
  simp [scan, scanText, hread]

end Token

/-! ### Asking for a name -/

/-- The query that compares the name with a text. -/
def nameQuery (op : Operator) (s : String) : String :=
  "name " ++ op.symbol ++ " " ++ Token.spelled s

/-- How a name with a mark and a backslash is spelled. -/
example : nameQuery .eq "a\"b\\c" = "name == \"a\\\"b\\\\c\"" := by
  decide

/-- **A query for a name is read as one**, whatever the name. -/
theorem ofText_nameQuery {op : Operator} {s : String}
    (hshort : Text.byteLength (nameQuery op s).toList ≤ 4096) :
    Expr.ofText (nameQuery op s) = .ok (.compare op (.field .name) (.literal (.text s))) := by
  have htext : (nameQuery op s).toList = Field.name.keyword.toList ++
      ' ' :: (op.symbol.toList ++ ' ' :: ((Token.spelled s).toList ++ [])) := by
    simp [nameQuery, Field.keyword]
  have hscan : symbols? ((Token.spelled s).toList ++ []) = some [.literal (.text s)] := by
    rw [Token.symbols?_spelled]
    rfl
  -- Neither the name nor any text holds a status, so no text is refused for spelling one.
  have hquoted : ¬ Misquoted (.field .name) (.literal (.text s)) := by
    simp [Misquoted, Operand.SpellsStatus, Operand.HoldsStatus]
  exact ofText_compare htext hshort hscan (.text s) hquoted

/--
**Any name can be asked for**, with every backslash and every quotation mark in it spelled behind
a backslash.  If the query takes at most 4096 bytes it has a predicate, which fails for nobody:
with `==` it accepts exactly those of that name, with `!=` exactly all others, and with `%`
exactly those in whose name the text occurs.
-/
theorem predicate_nameQuery (s : String) :
    (Text.byteLength (nameQuery .eq s).toList ≤ 4096 →
      ∃ p, Predicate.ofText (nameQuery .eq s) = .ok p ∧
        ∀ a, p a = .ok (decide (a.name = s))) ∧
    (Text.byteLength (nameQuery .ne s).toList ≤ 4096 →
      ∃ p, Predicate.ofText (nameQuery .ne s) = .ok p ∧
        ∀ a, p a = .ok (!decide (a.name = s))) ∧
    (Text.byteLength (nameQuery .contains s).toList ≤ 4096 →
      ∃ p, Predicate.ofText (nameQuery .contains s) = .ok p ∧
        ∀ a, ∃ b, p a = .ok b ∧ (b = true ↔ s.toList <:+: a.name.toList)) := by
  refine ⟨?_, ?_, ?_⟩
  · intro hshort
    exact ⟨_, predicate_ofText (ofText_nameQuery hshort), fun a => rfl⟩
  · intro hshort
    exact ⟨_, predicate_ofText (ofText_nameQuery hshort), fun a => rfl⟩
  · intro hshort
    refine ⟨_, predicate_ofText (ofText_nameQuery hshort), fun a => ?_⟩
    exact ⟨_, rfl, Value.occursIn_iff a.name.toList⟩

/-- A name with quotation marks, a backslash, a line feed, a zero and a letter that takes two
bytes. -/
theorem predicate_nameQuery_marked :
    (∃ p, Predicate.ofText (nameQuery .eq "\"Zoë\" \\n\n\x00") = .ok p ∧
        ∀ a, p a = .ok (decide (a.name = "\"Zoë\" \\n\n\x00"))) ∧
      (∃ p, Predicate.ofText (nameQuery .ne "\"Zoë\" \\n\n\x00") = .ok p ∧
        ∀ a, p a = .ok (!decide (a.name = "\"Zoë\" \\n\n\x00"))) ∧
      ∃ p, Predicate.ofText (nameQuery .contains "\"Zoë\" \\n\n\x00") = .ok p ∧
        ∀ a, ∃ b, p a = .ok b ∧ (b = true ↔ "\"Zoë\" \\n\n\x00".toList <:+: a.name.toList) := by
  obtain ⟨heq, hne, hcontains⟩ := predicate_nameQuery "\"Zoë\" \\n\n\x00"
  exact ⟨heq (by decide +kernel), hne (by decide +kernel), hcontains (by decide +kernel)⟩

end RollCall.Query
