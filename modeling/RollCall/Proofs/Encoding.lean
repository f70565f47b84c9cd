/-
Reports, encoded and decoded.

Every encoding but the one of open byte order says by itself how a text is written, and
reading undoes that.  What is left are the marks.  A mark is a character like the others
and is written as such, so to drop its bytes before the rest is read, or to read it and to
drop it then, is the same; decoding is therefore reading in the encoding that the bytes
settle on, and dropping one mark or two.

It follows that a text in front of which no mark stands is read back, with a mark of the
encoding in front or without, and that what can be decoded is a text with at most so many
marks in front.  In an open order a text is misread only if its first character is what the
mark looks like with its bytes exchanged.
-/
import RollCall.Command.Search
import RollCall.Proofs.Text.Utf16

namespace RollCall.Encoding

/-! ### Texts in UTF-8 -/

/-- The bytes of a text in UTF-8. -/
def encodeUtf8 (cs : List Char) : List UInt8 :=
  cs.flatMap String.utf8EncodeChar

theorem toByteArray_injective {as bs : List UInt8} (h : as.toByteArray = bs.toByteArray) :
    as = bs := by
  rw [← @List.toList_data_toByteArray as, h, List.toList_data_toByteArray]

/-- **Bytes are read as the text that is written as these bytes.** -/
theorem decodeUtf8?_eq_some {bytes : List UInt8} {cs : List Char} :
    decodeUtf8? bytes = some cs ↔ bytes = encodeUtf8 cs := by
  rw [decodeUtf8?, Option.map_eq_some_iff]
  constructor
  · rintro ⟨s, hs, rfl⟩
    unfold String.fromUTF8? at hs
    split at hs
    · rename_i hvalid
      obtain rfl := Option.some.inj hs
      apply toByteArray_injective
      show (String.fromUTF8 bytes.toByteArray hvalid).toByteArray =
        (String.fromUTF8 bytes.toByteArray hvalid).toList.utf8Encode
      rw [← String.toByteArray_ofList, String.ofList_toList]
    · cases hs
  · rintro rfl
    refine ⟨String.ofList cs, ?_, String.toList_ofList⟩
    have hvalid : (encodeUtf8 cs).toByteArray.IsValidUTF8 := .intro cs rfl
    unfold String.fromUTF8?
    rw [dif_pos hvalid]
    rfl

/-- Bytes that a character is written with are read as this character, whatever follows. -/
theorem decodeUtf8?_encode_append (c : Char) (rest : List UInt8) :
    decodeUtf8? (encodeUtf8 [c] ++ rest) = (decodeUtf8? rest).map (c :: ·) := by
  have hcons : ∀ cs, encodeUtf8 (c :: cs) = encodeUtf8 [c] ++ encodeUtf8 cs := by
    intro cs
    simp [encodeUtf8]
  apply Option.ext
  intro ds
  rw [decodeUtf8?_eq_some, Option.map_eq_some_iff]
  constructor
  · intro h
    -- What the bytes begin with decides the first character of the text.
    have hfirst : ((encodeUtf8 ds).toByteArray).utf8DecodeChar? 0 = some c := by
      rw [← h, encodeUtf8, List.flatMap_singleton, List.toByteArray_append]
      exact ByteArray.utf8DecodeChar?_utf8EncodeChar_append
    cases ds with
    | nil =>
        have hnil := (List.append_eq_nil_iff.mp h).1
        rw [encodeUtf8, List.flatMap_singleton] at hnil
        exact absurd hnil String.utf8EncodeChar_ne_nil
    | cons d ds =>
        obtain rfl : d = c :=
          Option.some.inj (List.utf8DecodeChar?_utf8Encode_cons.symm.trans hfirst)
        have hrest := List.append_cancel_left (h.trans (hcons ds))
        exact ⟨ds, decodeUtf8?_eq_some.mpr hrest, rfl⟩
  · rintro ⟨cs, hcs, rfl⟩
    rw [decodeUtf8?_eq_some.mp hcs]
    exact (hcons cs).symm

/-! ### Texts in any encoding -/

/-- The bytes of a text; in an open order the low byte comes first. -/
def encode : Encoding → List Char → List UInt8
  | .utf8 => encodeUtf8
  | .utf16 | .utf16LowFirst => Text.Utf16.encode .lowFirst
  | .utf16HighFirst => Text.Utf16.encode .highFirst

/-- The text of some bytes with the marks it begins with. -/
def plain? : Encoding → List UInt8 → Option (List Char)
  | .utf8 => decodeUtf8?
  | .utf16 | .utf16LowFirst => Text.Utf16.decode? .lowFirst
  | .utf16HighFirst => Text.Utf16.decode? .highFirst

theorem plain?_eq_some {e : Encoding} {bytes : List UInt8} {cs : List Char} :
    e.plain? bytes = some cs ↔ bytes = e.encode cs := by
  cases e with
  | utf8 => exact decodeUtf8?_eq_some
  | utf16 | utf16LowFirst | utf16HighFirst => exact Text.Utf16.decode?_eq_some

/-- The bytes are no text. -/
def Malformed : Encoding → List UInt8 → Prop
  | .utf8, bytes => ¬ bytes.toByteArray.IsValidUTF8
  | .utf16, bytes | .utf16LowFirst, bytes => Text.Utf16.Malformed .lowFirst bytes
  | .utf16HighFirst, bytes => Text.Utf16.Malformed .highFirst bytes

theorem plain?_eq_none {e : Encoding} {bytes : List UInt8} :
    e.plain? bytes = none ↔ e.Malformed bytes := by
  cases e with
  | utf8 =>
      show decodeUtf8? bytes = none ↔ ¬ bytes.toByteArray.IsValidUTF8
      rw [decodeUtf8?, Option.map_eq_none_iff]
      unfold String.fromUTF8?
      by_cases h : bytes.toByteArray.IsValidUTF8 <;> simp [h]
  | utf16 | utf16LowFirst | utf16HighFirst => exact Text.Utf16.decode?_eq_none

theorem encode_append (e : Encoding) (cs ds : List Char) :
    e.encode (cs ++ ds) = e.encode cs ++ e.encode ds := by
  cases e with
  | utf8 => exact List.flatMap_append
  | utf16 | utf16LowFirst | utf16HighFirst => exact Text.Utf16.encode_append _ cs ds

/-- Bytes that a character is written with are read as this character, whatever follows. -/
theorem plain?_encode_append (e : Encoding) (c : Char) (rest : List UInt8) :
    e.plain? (e.encode [c] ++ rest) = (e.plain? rest).map (c :: ·) := by
  cases e with
  | utf8 => exact decodeUtf8?_encode_append c rest
  | utf16 | utf16LowFirst | utf16HighFirst => exact Text.Utf16.decode?_encode_append _ c rest

/-! ### Marks -/

/-- The bytes of a mark. -/
def markBytes : Encoding → List UInt8
  | .utf8 => [0xEF, 0xBB, 0xBF]
  | .utf16 | .utf16LowFirst => [0xFF, 0xFE]
  | .utf16HighFirst => [0xFE, 0xFF]

theorem encode_mark (e : Encoding) : e.encode [mark] = e.markBytes := by
  cases e <;> decide

/-- Marks in front of a text are written as their bytes in front of its bytes. -/
theorem encode_replicate_append (e : Encoding) (k : Nat) (cs : List Char) :
    e.encode (List.replicate k mark ++ cs) =
      (List.replicate k e.markBytes).flatten ++ e.encode cs := by
  induction k with
  | zero => rfl
  | succ k ih =>
      rw [List.replicate_succ, List.cons_append, ← List.singleton_append, encode_append, ih,
        encode_mark, List.replicate_succ, List.flatten_cons, List.append_assoc]

/-- How many marks in front of a text are dropped at most. -/
def marks : Encoding → Nat
  | .utf8 | .utf16 => 2
  | .utf16LowFirst | .utf16HighFirst => 1

/-- A text without so many of the marks that it begins with. -/
def dropMarks : Nat → List Char → List Char
  | 0, cs => cs
  | n + 1, cs => dropMarks n (dropMark cs)

/-- The text does not begin with a mark. -/
def Unmarked (cs : List Char) : Prop :=
  ∀ c ∈ cs.head?, c ≠ mark

theorem dropMark_of_unmarked {cs : List Char} (h : Unmarked cs) : dropMark cs = cs := by
  cases cs with
  | nil => rfl
  | cons c cs => rw [dropMark, if_neg (h c rfl)]

theorem dropMarks_of_unmarked {cs : List Char} (h : Unmarked cs) (n : Nat) :
    dropMarks n cs = cs := by
  induction n with
  | zero => rfl
  | succ n ih => rw [dropMarks, dropMark_of_unmarked h, ih]

theorem dropMarks_cons (n : Nat) (cs : List Char) :
    dropMarks (n + 1) (mark :: cs) = dropMarks n cs := by
  rw [dropMarks, dropMark, if_pos rfl]

theorem dropMarks_replicate_append {cs : List Char} (h : Unmarked cs) :
    ∀ {k n : Nat}, k ≤ n → dropMarks n (List.replicate k mark ++ cs) = cs := by
  intro k
  induction k with
  | zero => intro n _; exact dropMarks_of_unmarked h n
  | succ k ih =>
      intro n hk
      obtain ⟨m, rfl⟩ : ∃ m, n = m + 1 := ⟨n - 1, by omega⟩
      rw [List.replicate_succ, List.cons_append, dropMarks_cons, ih (Nat.le_of_succ_le_succ hk)]

theorem dropMark_dropMarks (n : Nat) (cs : List Char) :
    dropMark (dropMarks n cs) = dropMarks (n + 1) cs := by
  induction n generalizing cs with
  | zero => rfl
  | succ n ih => exact ih (dropMark cs)

/-- Nothing but marks is dropped, and no more of them than was said. -/
theorem exists_dropMarks (n : Nat) (cs : List Char) :
    ∃ k ≤ n, cs = List.replicate k mark ++ dropMarks n cs := by
  induction n generalizing cs with
  | zero => exact ⟨0, Nat.le_refl 0, rfl⟩
  | succ n ih =>
      by_cases h : Unmarked cs
      · exact ⟨0, Nat.zero_le _, (dropMarks_of_unmarked h _).symm⟩
      · obtain ⟨c, hc, hmark⟩ : ∃ c ∈ cs.head?, c = mark := by
          simpa [Unmarked] using h
        obtain ⟨rest, rfl⟩ := List.head?_eq_some_iff.mp hc
        subst hmark
        obtain ⟨k, hk, hrest⟩ := ih rest
        refine ⟨k + 1, Nat.succ_le_succ hk, ?_⟩
        rw [dropMarks_cons, List.replicate_succ, List.cons_append, ← hrest]

/-- The encoding whose byte order the bytes decide. -/
def settled : Encoding → List UInt8 → Encoding
  | .utf16, 0xFE :: 0xFF :: _ => .utf16HighFirst
  | .utf16, _ => .utf16LowFirst
  | e, _ => e

theorem settled_utf16 {bytes : List UInt8}
    (h : ∀ rest, bytes ≠ utf16HighFirst.markBytes ++ rest) :
    settled .utf16 bytes = .utf16LowFirst := by
  rw [settled]
  exact h

/-- A mark that the bytes begin with is read as a mark. -/
theorem map_dropMarks_plain?_mark (e : Encoding) (n : Nat) (rest : List UInt8) :
    (e.plain? (e.markBytes ++ rest)).map (dropMarks (n + 1)) =
      (e.plain? rest).map (dropMarks n) := by
  rw [← encode_mark, plain?_encode_append, Option.map_map]
  exact congrFun (congrArg Option.map (funext fun cs => dropMarks_cons n cs)) _

/-- Bytes that do not begin with a mark are read as a text that does not. -/
theorem map_dropMarks_plain?_unmarked (e : Encoding) {bytes : List UInt8}
    (h : ∀ rest, bytes ≠ e.markBytes ++ rest) (n : Nat) :
    (e.plain? bytes).map (dropMarks n) = e.plain? bytes := by
  cases hcs : e.plain? bytes with
  | none => rfl
  | some cs =>
      refine congrArg some (dropMarks_of_unmarked ?_ n)
      intro c hc hmark
      obtain ⟨rest, rfl⟩ := List.head?_eq_some_iff.mp hc
      refine h (e.encode rest) ?_
      rw [plain?_eq_some.mp hcs, ← encode_mark, ← encode_append, hmark]
      rfl

/-- **Decoding is reading in the encoding that the bytes settle on, and dropping marks.**  To drop
a mark as bytes, before the text is read, is no different. -/
theorem decodeMarked?_eq (e : Encoding) (bytes : List UInt8) :
    e.decodeMarked? bytes = ((e.settled bytes).plain? bytes).map (dropMarks (e.marks - 1)) := by
  have hkeep : ∀ r : Option (List Char), r.map (dropMarks 0) = r := fun r => by
    cases r <;> rfl
  unfold decodeMarked?
  split
  · rename_i rest
    exact ((map_dropMarks_plain?_mark .utf8 0 rest).trans (hkeep _)).symm
  · rename_i hnot
    exact (map_dropMarks_plain?_unmarked .utf8 hnot 1).symm
  · rename_i rest
    exact ((map_dropMarks_plain?_mark .utf16HighFirst 0 rest).trans (hkeep _)).symm
  · rename_i rest
    exact ((map_dropMarks_plain?_mark .utf16LowFirst 0 rest).trans (hkeep _)).symm
  · rename_i hhigh hlow
    rw [settled_utf16 hhigh]
    exact (map_dropMarks_plain?_unmarked .utf16LowFirst hlow 1).symm
  · exact (hkeep _).symm
  · exact (hkeep _).symm

theorem decode?_eq (e : Encoding) (bytes : List UInt8) :
    e.decode? bytes = ((e.settled bytes).plain? bytes).map fun cs =>
      String.ofList (dropMarks e.marks cs) := by
  have hmarks : e.marks - 1 + 1 = e.marks := by
    cases e <;> rfl
  rw [decode?, decodeMarked?_eq, Option.map_map]
  refine congrFun (congrArg Option.map (funext fun cs => ?_)) _
  rw [Function.comp_apply, dropMark_dropMarks, hmarks]

/-! ### Decoding -/

/-- A text that does not begin with a mark is decoded with as many marks in front as are dropped,
or fewer, as long as the bytes settle on the encoding it is written in. -/
theorem decode?_marks_append {e e' : Encoding} {t : String} (ht : Unmarked t.toList) {k : Nat}
    (hk : k ≤ e.marks) {bytes : List UInt8}
    (hbytes : bytes = (List.replicate k e'.markBytes).flatten ++ e'.encode t.toList)
    (hsettled : e.settled bytes = e') : e.decode? bytes = some t := by
  rw [← encode_replicate_append, ← plain?_eq_some] at hbytes
  rw [decode?_eq, hsettled, hbytes, Option.map_some, dropMarks_replicate_append ht hk,
    String.ofList_toList]

/-- What is decoded is a text with marks in front, and no more of them than are dropped. -/
theorem exists_of_decode?_eq_some {e : Encoding} {bytes : List UInt8} {t : String}
    (h : e.decode? bytes = some t) :
    ∃ k ≤ e.marks, bytes = (List.replicate k (e.settled bytes).markBytes).flatten ++
      (e.settled bytes).encode t.toList := by
  rw [decode?_eq, Option.map_eq_some_iff] at h
  obtain ⟨cs, hcs, rfl⟩ := h
  obtain ⟨k, hk, hmarks⟩ := exists_dropMarks e.marks cs
  refine ⟨k, hk, ?_⟩
  rw [String.toList_ofList, ← encode_replicate_append, ← hmarks]
  exact plain?_eq_some.mp hcs

theorem decode?_eq_none {e : Encoding} {bytes : List UInt8} :
    e.decode? bytes = none ↔ (e.settled bytes).Malformed bytes := by
  rw [decode?_eq, Option.map_eq_none_iff, plain?_eq_none]

theorem settled_of_ne {e : Encoding} (h : e ≠ utf16) (bytes : List UInt8) :
    e.settled bytes = e := by
  cases e with
  | utf16 => exact absurd rfl h
  | utf8 | utf16LowFirst | utf16HighFirst => rfl

/-- Without a mark the low byte comes first, unless the text begins with what a mark looks like
with its bytes exchanged. -/
theorem settled_encode {cs : List Char} (h : ∀ c ∈ cs.head?, c ≠ '\uFFFE') :
    settled .utf16 (utf16LowFirst.encode cs) = .utf16LowFirst := by
  refine settled_utf16 fun rest heq => ?_
  have hcs : utf16LowFirst.plain? (utf16LowFirst.encode cs) = some cs := plain?_eq_some.mpr rfl
  have hbytes : utf16HighFirst.markBytes = utf16LowFirst.encode ['\uFFFE'] := by decide
  rw [heq, hbytes, plain?_encode_append, Option.map_eq_some_iff] at hcs
  obtain ⟨ds, -, rfl⟩ := hcs
  exact h _ rfl rfl

/--
**Decoding is inverse to encoding, up to marks.**

A text that does not begin with a mark is decoded from its bytes in every encoding that has a
byte order, and from the same bytes with a mark in front.  In UTF-16 of open order it is
decoded from its bytes behind a mark of either order, and without a mark from those with the
low byte first, unless it begins with what a mark looks like with its bytes exchanged.

Conversely, bytes that are decoded are those of the text, in the order that they settle on,
behind one mark at most, or two in UTF-8 and in the open order.  All other bytes are refused,
and they are the ones that are malformed: not well formed in UTF-8, or in UTF-16 of an odd
number or with a surrogate that stands without its partner.
-/
theorem decode?_inverse_encode :
    (∀ t : String, Unmarked t.toList →
      (∀ e ≠ utf16, e.decode? (e.encode t.toList) = some t ∧
        e.decode? (e.markBytes ++ e.encode t.toList) = some t) ∧
      utf16.decode? (utf16HighFirst.markBytes ++ utf16HighFirst.encode t.toList) = some t ∧
      utf16.decode? (utf16LowFirst.markBytes ++ utf16LowFirst.encode t.toList) = some t ∧
      ((∀ c ∈ t.toList.head?, c ≠ '\uFFFE') →
        utf16.decode? (utf16LowFirst.encode t.toList) = some t)) ∧
      ∀ (e : Encoding) (bytes : List UInt8),
        (∀ t, e.decode? bytes = some t →
          ∃ k ≤ e.marks, bytes = (List.replicate k (e.settled bytes).markBytes).flatten ++
            (e.settled bytes).encode t.toList) ∧
        (e.decode? bytes = none ↔ ¬ ∃ k ≤ e.marks, ∃ t : String,
          bytes = (List.replicate k (e.settled bytes).markBytes).flatten ++
            (e.settled bytes).encode t.toList) ∧
        (e.decode? bytes = none ↔ (e.settled bytes).Malformed bytes) ∧
        (e.decode? bytes = none →
          ∀ path, Command.load path e (.ok bytes) = .error (.encoding e)) := by
  have hmarks : ∀ e : Encoding, 1 ≤ e.marks := by
    intro e
    cases e <;> decide
  have hone : ∀ (e : Encoding) (cs : List Char), e.markBytes ++ e.encode cs =
      (List.replicate 1 e.markBytes).flatten ++ e.encode cs := by
    intro e cs
    simp
  constructor
  · intro t ht
    refine ⟨fun e he => ⟨?_, ?_⟩, ?_, ?_, fun hfirst => ?_⟩
    · exact decode?_marks_append ht (Nat.zero_le _) rfl (settled_of_ne he _)
    · exact decode?_marks_append ht (hmarks e) (hone e _) (settled_of_ne he _)
    · exact decode?_marks_append ht (hmarks _) (hone utf16HighFirst _) rfl
    · exact decode?_marks_append ht (hmarks _) (hone utf16LowFirst _) rfl
    · exact decode?_marks_append ht (Nat.zero_le _) rfl (settled_encode hfirst)
  · intro e bytes
    refine ⟨fun t => exists_of_decode?_eq_some, ?_, decode?_eq_none, ?_⟩
    · constructor
      · rintro hnone ⟨k, -, t, hbytes⟩
        rw [← encode_replicate_append, ← plain?_eq_some] at hbytes
        rw [decode?_eq, hbytes] at hnone
        cases hnone
      · intro hnot
        cases ht : e.decode? bytes with
        | none => rfl
        | some t =>
            obtain ⟨k, hk, hbytes⟩ := exists_of_decode?_eq_some ht
            exact absurd ⟨k, hk, t, hbytes⟩ hnot
    · intro hnone path
      rw [Command.load, hnone]

/-- A text that begins so is taken for one with the high byte first. -/
example : utf16.decode? (utf16LowFirst.encode ['\uFFFE', 'A']) = some "\u4100" := by
  decide +kernel

end RollCall.Encoding
