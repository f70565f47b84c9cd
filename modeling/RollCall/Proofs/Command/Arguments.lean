/-
Whatever the command can be told is said by some command line.

The words of a setting name it, with the value of a parameter behind an equals sign, if it is
given at all; and behind two hyphens, where nothing is taken for an option, stand the file and
the query.  They are read as the arguments that they are the words of, in whatever order the
settings stand.  So no value has to be avoided for what it begins with, and only two things
cannot be said: a file without a name, and a query without a file.

The step is that the words of a setting that has not been given before change that setting and
nothing else; the run is an induction over the settings in front of the hyphens.
-/
import Mathlib.Data.List.Perm.Basic
import RollCall.Command.Options

namespace RollCall.Command

open Progress (takeWords takePlains)

namespace Arguments

/-- The value that a parameter is given. -/
def valueOf? (a : Arguments) : Parameter → Option String
  | .encoding => a.encoding.map Encoding.name
  | .format => a.format

/-- The words of a setting, none if it is not given. -/
def wordsOf (a : Arguments) (s : Setting) : List String :=
  match s with
  | .parameter p => ((a.valueOf? p).map fun value => "--" ++ s.name ++ "=" ++ value).toList
  | .flag _ => if a.has s then ["--" ++ s.name] else []

/-- The words of the file and the query. -/
def plainWords (a : Arguments) : List String :=
  a.file.toList ++ a.query.toList

/-- The arguments with one setting as in others. -/
def copy (b a : Arguments) : Setting → Arguments
  | .parameter .encoding => { a with encoding := b.encoding }
  | .parameter .format => { a with format := b.format }
  | .flag .utf16 => { a with utf16 := b.utf16 }
  | .flag .verbose => { a with verbose := b.verbose }

variable {a b : Arguments}

theorem has_copy_of_ne {s t : Setting} (h : s ≠ t) : (b.copy a s).has t = a.has t := by
  rcases s with (_ | _) | (_ | _) <;> rcases t with (_ | _) | (_ | _) <;> simp_all [copy, has]

/-- Which of two settings is copied first does not matter. -/
instance : RightCommutative b.copy where
  right_comm a s t := by rcases s with (_ | _) | (_ | _) <;> rcases t with (_ | _) | (_ | _) <;> rfl

end Arguments

/-! ### The words of one setting -/

theorem ofName?_name (s : Setting) : Setting.ofName? s.name = some s := by
  rcases s with (_ | _) | (_ | _) <;> decide

theorem encodingOfName?_name (e : Encoding) : Encoding.ofName? e.name = some e := by
  cases e <;> decide +kernel

theorem takeWords_cons {r r' : Progress} {word : String} (hword : word ≠ "--")
    (h : r.takeWord word = .ok r') (rest : List String) :
    r.takeWords (word :: rest) = r'.takeWords rest := by
  rw [Progress.takeWords, if_neg hword, h]

/-- What stands behind the first equals sign is the value, even if there are others in it. -/
theorem takeWord_parameter (r : Progress) (p : Parameter) (value : String) :
    r.takeWord ("--" ++ (Setting.parameter p).name ++ "=" ++ value) =
      r.takeParameter p (some value) := by
  have hword : ("--" ++ (Setting.parameter p).name ++ "=" ++ value).toList =
      '-' :: '-' :: ((Setting.parameter p).name.toList ++ '=' :: value.toList) := by simp
  have hname : ((Setting.parameter p).name.toList ++ '=' :: value.toList).takeWhile (· ≠ '=') =
      (Setting.parameter p).name.toList := by cases p <;> rfl
  rw [Progress.takeWord, hword]
  simp only [hname, List.drop_left, List.tail?_cons, Option.map_some, String.ofList_toList,
    Progress.takeName, ofName?_name]

theorem takeWord_flag (r : Progress) (f : Flag) :
    r.takeWord ("--" ++ (Setting.flag f).name) = r.takeFlag f := by
  cases f <;> rfl

theorem choose_eq_copy {a b : Arguments} {p : Parameter} (h : a.has (.parameter p) = false)
    {value : String} (hvalue : b.valueOf? p = some value) :
    a.choose p value = .ok (b.copy a (.parameter p)) := by
  cases p with
  | encoding =>
      obtain ⟨e, he, rfl⟩ := Option.map_eq_some_iff.mp hvalue
      simp [Arguments.choose, h, encodingOfName?_name, Arguments.copy, he]
  | format =>
      rw [Arguments.valueOf?] at hvalue
      simp [Arguments.choose, h, Arguments.copy, hvalue]

theorem raise_eq_copy {a b : Arguments} {f : Flag} (h : a.has (.flag f) = false)
    (hraised : b.has (.flag f) = true) : a.raise f = .ok (b.copy a (.flag f)) := by
  cases f with
  | utf16 =>
      rw [Arguments.has] at hraised
      simp [Arguments.raise, h, Arguments.copy, hraised]
  | verbose =>
      rw [Arguments.has] at hraised
      simp [Arguments.raise, h, Arguments.copy, hraised]

/-- A setting that neither has is the same in both. -/
theorem copy_eq_self {a b : Arguments} {s : Setting} (h : a.has s = false) (h' : b.has s = false) :
    b.copy a s = a := by
  obtain ⟨encoding, format, utf16, verbose, file, query⟩ := a
  rcases s with (_ | _) | (_ | _) <;> simp_all [Arguments.copy, Arguments.has]

theorem has_of_valueOf? {b : Arguments} {p : Parameter} (h : b.valueOf? p = none) :
    b.has (.parameter p) = false := by
  cases p <;> simp_all [Arguments.valueOf?, Arguments.has]

/-- **The words of a setting that has not been given before change nothing else.** -/
theorem takeWords_wordsOf {a : Arguments} {s : Setting} (h : a.has s = false) (b : Arguments)
    (rest : List String) :
    takeWords ⟨a, .nothing⟩ (b.wordsOf s ++ rest) = takeWords ⟨b.copy a s, .nothing⟩ rest := by
  cases s with
  | parameter p =>
      cases hvalue : b.valueOf? p with
      | none =>
          rw [Arguments.wordsOf, hvalue, copy_eq_self h (has_of_valueOf? hvalue)]
          rfl
      | some value =>
          rw [Arguments.wordsOf, hvalue]
          refine takeWords_cons ?_ ?_ rest
          · intro hescape
            simpa using congrArg String.toList hescape
          · rw [takeWord_parameter]
            simp only [Progress.takeParameter, Progress.settle_nothing, choose_eq_copy h hvalue,
              Except.map]
  | flag f =>
      by_cases hraised : b.has (.flag f) = true
      · rw [Arguments.wordsOf, if_pos hraised]
        refine takeWords_cons (by cases f <;> decide) ?_ rest
        rw [takeWord_flag]
        simp only [Progress.takeFlag, Progress.settle_nothing, raise_eq_copy h hraised, Except.map]
      · rw [Arguments.wordsOf, if_neg hraised, copy_eq_self h (Bool.eq_false_iff.mpr hraised)]
        rfl

/-! ### The whole line -/

/-- Settings are taken one after the other, if none of them stands twice. -/
theorem takeWords_settings (b : Arguments) (rest : List String) :
    ∀ (ss : List Setting) (a : Arguments), ss.Nodup → (∀ s ∈ ss, a.has s = false) →
      takeWords ⟨a, .nothing⟩ (ss.flatMap b.wordsOf ++ rest) =
        takeWords ⟨ss.foldl b.copy a, .nothing⟩ rest := by
  intro ss
  induction ss with
  | nil => intro a _ _; rfl
  | cons s ss ih =>
      intro a hnodup hfresh
      obtain ⟨hs, hnodup⟩ := List.nodup_cons.mp hnodup
      obtain ⟨hfirst, hfresh⟩ := List.forall_mem_cons.mp hfresh
      rw [List.flatMap_cons, List.append_assoc, takeWords_wordsOf hfirst]
      refine ih _ hnodup fun t ht => ?_
      rw [Arguments.has_copy_of_ne (ne_of_mem_of_not_mem ht hs).symm, hfresh t ht]

/-- What stands behind two hyphens is the file and the query, whatever they look like. -/
theorem takePlains_plainWords {a : Arguments} (hfile : a.file ≠ some "")
    (hquery : a.query ≠ none → a.file ≠ none) :
    ∃ r, takePlains ⟨{ a with file := none, query := none }, .nothing⟩ a.plainWords = .ok r ∧
      r.settle = .ok a := by
  obtain ⟨encoding, format, utf16, verbose, file, query⟩ := a
  cases file with
  | none =>
      obtain rfl : query = none := Classical.byContradiction fun hsome => hquery hsome rfl
      exact ⟨_, rfl, rfl⟩
  | some f =>
      have hname : f.isEmpty = false := by
        rw [← Bool.not_eq_true, String.isEmpty_iff]
        rintro rfl
        exact hfile rfl
      cases query with
      | none => exact ⟨_, rfl, by simp [Progress.settle, hname]⟩
      | some q =>
          refine ⟨⟨⟨encoding, format, utf16, verbose, some f, some q⟩, .nothing⟩, ?_, rfl⟩
          simp [Arguments.plainWords, takePlains, Progress.takePlain, Progress.settle, hname]

/--
**All arguments can be given**, unless the file has no name or there is a query without a file.

They are read from their words, in whatever order the settings are named.
-/
theorem read_words {a : Arguments} (hfile : a.file ≠ some "")
    (hquery : a.query ≠ none → a.file ≠ none) {ss : List Setting} (hss : ss.Perm Setting.all) :
    Arguments.read (ss.flatMap a.wordsOf ++ "--" :: a.plainWords) = .ok a := by
  obtain ⟨r, hplains, hsettle⟩ := takePlains_plainWords hfile hquery
  have hnodup : ss.Nodup := hss.nodup_iff.mpr (by decide)
  have hall : ss.foldl a.copy {} = { a with file := none, query := none } := by
    rw [hss.foldl_eq]
    rfl
  have hwords : takeWords {} (ss.flatMap a.wordsOf ++ "--" :: a.plainWords) = .ok r := by
    rw [takeWords_settings a _ ss {} hnodup fun s _ => by rcases s with (_ | _) | (_ | _) <;> rfl,
      hall]
    exact hplains
  rw [Arguments.read, hwords]
  exact hsettle

/-- Letters may be drawn together, and behind two hyphens nothing is an option. -/
example : Arguments.read ["-vfA=B", "--", "--utf16", "-f"] =
    .ok { format := some "A=B", verbose := true, file := some "--utf16", query := some "-f" } := by
  decide +kernel

/-- No option is the value of another. -/
example : Arguments.read ["--format", "--utf16", "a.tsv"] = .error (.noValue .format) := by
  decide +kernel

/-- An option that does not exist is refused before the value in front of it. -/
example : Arguments.read ["--encoding", "x", "--foo"] = .error (.unexpected "--foo") := by
  decide +kernel

end RollCall.Command
