/-
What a run leaves.

Once the command line has said what it wants, a run either completes or something in it
fails first.  `Completes` says that every stage succeeds, the asking about everybody
included; `FailsFirst` names the failure, says that all before it went well, and has the
log up to there.  The run is followed once for each of the two, and everything that is
said of exit codes and output is read off these two outcomes.

Lines are written only by a run that completes, and only for those who match, so whatever
is written was meant to be: a run that fails leaves no part of an output.
-/
import RollCall.Command.Run
import RollCall.Proofs.Command.Search
import RollCall.Proofs.Report.Grouping

namespace RollCall.Command

open Table

/-- The options are carried out to the end: their search, the text of the file, and the attendees
in it, for each of whom the query has an answer. -/
structure Completes (o : Options) (content : Except FileError (List UInt8)) (s : Search)
    (text : String) (as : List Attendee) : Prop where
  asked : Asked o.format o.query s
  loaded : Loaded o.encoding content text as
  answers : s.Answers as

/-- What fails first, and the log before it. -/
inductive FailsFirst (o : Options) (content : Except FileError (List UInt8)) :
    Failure → List String → Prop
  | asking {f : Failure} (h : Unasked o.format o.query f) : FailsFirst o content f []
  | loading {s : Search} {f : Failure} (hs : Asked o.format o.query s)
      (h : Unloaded o.file o.encoding content f) : FailsFirst o content f (Job.queryLog o s.query)
  | answering {s : Search} {text : String} {as : List Attendee} {e : CompareError}
      (hs : Asked o.format o.query s) (has : Loaded o.encoding content text as)
      (h : s.Unanswered as e) :
      FailsFirst o content (.evaluation e) (Job.queryLog o s.query ++ Job.loadLog o as)

/-- Nothing else can happen. -/
theorem completes_or_failsFirst (o : Options) (content : Except FileError (List UInt8)) :
    (∃ s text as, Completes o content s text as) ∨ ∃ f log, FailsFirst o content f log := by
  cases hs : Search.ofTexts o.format o.query with
  | error f => exact .inr ⟨f, [], .asking (Search.ofTexts_eq_error_iff.mp hs)⟩
  | ok s =>
      have hasked := Search.ofTexts_eq_ok_iff.mp hs
      cases has : load o.file o.encoding content with
      | error f => exact .inr ⟨f, _, .loading hasked (load_eq_error_iff.mp has)⟩
      | ok as =>
          obtain ⟨text, hloaded⟩ := load_eq_ok_iff.mp has
          rcases s.answers_or_unanswered as with h | ⟨e, h⟩
          · exact .inl ⟨s, text, as, hasked, hloaded, h⟩
          · exact .inr ⟨.evaluation e, _, .answering hasked hloaded h⟩

/-! ### Following a run -/

section Run

variable {words : List String} {surroundings : Surroundings} {o : Options}
  {files : String → Except FileError (List UInt8)}

theorem run_of_asked (h : Options.read words surroundings = .ok o) {s : Search}
    (hs : Asked o.format o.query s) :
    run words surroundings files =
      Job.finish ⟨o, s, Job.queryLog o s.query⟩ (files o.file) := by
  simp only [run, start, h, Job.begin, Search.ofTexts_eq_ok_iff.mpr hs]

/-- A run that completes writes a line for each who matches. -/
theorem run_of_completes (h : Options.read words surroundings = .ok o) {s : Search}
    {text : String} {as : List Attendee} (hc : Completes o (files o.file) s text as) :
    run words surroundings files =
      ⟨if (s.matching as).isEmpty then .nobody else .matched, s.text (s.matching as),
        Job.queryLog o s.query ++ Job.loadLog o as ++ Job.matchLog o (s.matching as) as⟩ := by
  rw [run_of_asked h hc.asked]
  simp only [Job.finish, load_eq_ok_iff.mpr ⟨text, hc.loaded⟩, Search.chosen_of_answers hc.answers]

/-- A run in which something fails leaves the notes on it, behind the log. -/
theorem run_of_failsFirst (h : Options.read words surroundings = .ok o) {f : Failure}
    {log : List String} (hf : FailsFirst o (files o.file) f log) :
    run words surroundings files = .failure (log ++ f.notes o.verbose) := by
  cases hf with
  | asking hf =>
      simp only [run, start, h, Job.begin, Search.ofTexts_eq_error_iff.mpr hf, List.nil_append]
  | loading hs hf =>
      rw [run_of_asked h hs]
      simp only [Job.finish, load_eq_error_iff.mpr hf]
  | answering hs has hf =>
      rw [run_of_asked h hs]
      simp only [Job.finish, load_eq_ok_iff.mpr ⟨_, has⟩, Search.chosen_of_unanswered hf]

/-! ### Exit codes -/

theorem Search.matching_eq_nil_iff {s : Search} {as : List Attendee} :
    s.matching as = [] ↔ ¬ ∃ a ∈ as, s.accepts a = .ok true := by
  simp [Search.matching, List.filter_eq_nil_iff]

/-- A run that completes tells by its exit code whether anybody matches. -/
theorem exitCode_of_completes (h : Options.read words surroundings = .ok o) {s : Search}
    {text : String} {as : List Attendee} (hc : Completes o (files o.file) s text as) :
    (run words surroundings files).ending.exitCode = if s.matching as = [] then 1 else 0 := by
  rw [run_of_completes h hc]
  by_cases hm : s.matching as = []
  · simp [hm, Ending.exitCode]
  · simp [hm, Ending.exitCode]

/-- Every other run tells that it has failed. -/
theorem completes_of_exitCode_ne_two (h : Options.read words surroundings = .ok o)
    (hcode : (run words surroundings files).ending.exitCode ≠ 2) :
    ∃ s text as, Completes o (files o.file) s text as := by
  rcases completes_or_failsFirst o (files o.file) with hc | ⟨f, log, hf⟩
  · exact hc
  · rw [run_of_failsFirst h hf] at hcode
    exact absurd rfl hcode

theorem exitCode_eq_zero_iff (h : Options.read words surroundings = .ok o) :
    (run words surroundings files).ending.exitCode = 0 ↔
      ∃ s text as, Completes o (files o.file) s text as ∧ ∃ a ∈ as, s.accepts a = .ok true := by
  constructor
  · intro hcode
    obtain ⟨s, text, as, hc⟩ := completes_of_exitCode_ne_two h (by rw [hcode]; decide)
    refine ⟨s, text, as, hc, Classical.byContradiction fun hnone => ?_⟩
    rw [exitCode_of_completes h hc, if_pos (Search.matching_eq_nil_iff.mpr hnone)] at hcode
    exact absurd hcode (by decide)
  · rintro ⟨s, text, as, hc, hsome⟩
    rw [exitCode_of_completes h hc, if_neg]
    exact fun hm => Search.matching_eq_nil_iff.mp hm hsome

theorem exitCode_eq_one_iff (h : Options.read words surroundings = .ok o) :
    (run words surroundings files).ending.exitCode = 1 ↔
      ∃ s text as, Completes o (files o.file) s text as ∧ ¬ ∃ a ∈ as, s.accepts a = .ok true := by
  constructor
  · intro hcode
    obtain ⟨s, text, as, hc⟩ := completes_of_exitCode_ne_two h (by rw [hcode]; decide)
    refine ⟨s, text, as, hc, fun hsome => ?_⟩
    rw [exitCode_of_completes h hc, if_neg] at hcode
    · exact absurd hcode (by decide)
    · exact fun hm => Search.matching_eq_nil_iff.mp hm hsome
  · rintro ⟨s, text, as, hc, hnone⟩
    rw [exitCode_of_completes h hc, if_pos (Search.matching_eq_nil_iff.mpr hnone)]

/-! ### The output -/

/-- Only a run in which somebody matches writes anything. -/
theorem exitCode_of_output_ne (h : Options.read words surroundings = .ok o)
    (hout : (run words surroundings files).output ≠ "") :
    (run words surroundings files).ending.exitCode = 0 := by
  rcases completes_or_failsFirst o (files o.file) with ⟨s, text, as, hc⟩ | ⟨f, log, hf⟩
  · rw [exitCode_of_completes h hc, if_neg]
    intro hm
    rw [run_of_completes h hc, hm] at hout
    exact absurd rfl hout
  · rw [run_of_failsFirst h hf] at hout
    exact absurd rfl hout

/-! ### The lines of the notes

Notes are told apart by the ends of their lines: a note may take several, but none shares a line
with another.
-/

/-- The lines that one note takes. -/
def linesOf (note : String) : List String :=
  (Text.lines (note.toList ++ ['\n'])).map String.ofList

/-- A note without an end of a line is one line. -/
theorem linesOf_eq_self {note : String} (feed : '\n' ∉ note.toList)
    (carriage : '\r' ∉ note.toList) : linesOf note = [note] := by
  rw [linesOf, Text.lines_lineFeed feed carriage, List.map_singleton, String.ofList_toList]

/-- **Every note has lines of its own**, in the order of the notes. -/
theorem Outcome.noteLines_eq (outcome : Outcome) :
    outcome.noteLines = outcome.notes.flatMap linesOf := by
  obtain ⟨ending, output, notes⟩ := outcome
  induction notes with
  | nil => rfl
  | cons note notes ih =>
      have htext : (Outcome.mk ending output (note :: notes)).noteText.toList =
          note.toList ++ '\n' :: (Outcome.mk ending output notes).noteText.toList := by
        simp [Outcome.noteText, String.toList_join]
      rw [Outcome.noteLines, htext, Text.lines_append_lineFeed, List.map_append,
        List.flatMap_cons, ← ih]
      rfl

/-- What is shown of a run in which something fails ends with the lines on that. -/
theorem noteLines_of_failsFirst (h : Options.read words surroundings = .ok o) {f : Failure}
    {log : List String} (hf : FailsFirst o (files o.file) f log) :
    (run words surroundings files).noteLines =
      log.flatMap linesOf ++ (f.notes o.verbose).flatMap linesOf := by
  rw [run_of_failsFirst h hf, Outcome.noteLines_eq, Outcome.failure, List.flatMap_append]

end Run

/-- Those who match stand in the order in which the entries of the report first name them. -/
theorem Loaded.appearance {encoding : Encoding} {content : Except FileError (List UInt8)}
    {text : String} {as : List Attendee} (h : Loaded encoding content text as) (s : Search) :
    ∃ es, Report.entriesOfRows (rows text) = .ok es ∧
      ((s.matching as).map Attendee.name).Pairwise fun m n =>
        (es.map Entry.name).idxOf m < (es.map Entry.name).idxOf n := by
  obtain ⟨es, hes, rfl⟩ := Result.map_eq_ok.mp h.report
  refine ⟨es, hes, ?_⟩
  exact (Report.grouped_attendeesOf es).appearance.sublist (List.filter_sublist.map _)

/--
**A run is all or nothing**, whatever file, encoding, query and line template the command
line asks for.

Something is written only with exit code 0, and that is the exit code exactly if every stage
succeeds and somebody matches; if every stage succeeds and nobody does, it is 1.  What is
written then is a line for each who matches, in the order of first appearance.  Otherwise
the exit code is 2, nothing is written, and the notes end with those on what fails first,
whoever has matched before that.
-/
theorem run_all_or_nothing {words : List String} {surroundings : Surroundings} {o : Options}
    (h : Options.read words surroundings = .ok o)
    (files : String → Except FileError (List UInt8)) :
    let outcome := run words surroundings files
    (outcome.output ≠ "" → outcome.ending.exitCode = 0) ∧
      (outcome.ending.exitCode = 0 ↔ ∃ s text as, Completes o (files o.file) s text as ∧
        ∃ a ∈ as, s.accepts a = .ok true) ∧
      (outcome.ending.exitCode = 1 ↔ ∃ s text as, Completes o (files o.file) s text as ∧
        ¬ ∃ a ∈ as, s.accepts a = .ok true) ∧
      (∀ s text as, Completes o (files o.file) s text as →
        outcome.output =
            String.join ((s.matching as).map fun a => s.template.render a ++ "\n") ∧
          ∃ es, Report.entriesOfRows (rows text) = .ok es ∧
            ((s.matching as).map Attendee.name).Pairwise fun m n =>
              (es.map Entry.name).idxOf m < (es.map Entry.name).idxOf n) ∧
      ((¬ ∃ s text as, Completes o (files o.file) s text as) →
        ∃ f log, FailsFirst o (files o.file) f log) ∧
      ∀ f log, FailsFirst o (files o.file) f log →
        outcome.ending.exitCode = 2 ∧ outcome.output = "" ∧
          outcome.notes = log ++ f.notes o.verbose := by
  refine ⟨exitCode_of_output_ne h, exitCode_eq_zero_iff h, exitCode_eq_one_iff h, ?_,
    (completes_or_failsFirst o (files o.file)).resolve_left, ?_⟩
  · intro s text as hc
    refine ⟨?_, hc.loaded.appearance s⟩
    rw [run_of_completes h hc]
    rfl
  · intro f log hf
    rw [run_of_failsFirst h hf]
    exact ⟨rfl, rfl, rfl⟩

/-- The query is true of Ann, whatever her total is, and has no answer for Bob: nothing is written
about Ann either. -/
theorem run_all_or_nothing_unanswered :
    let query := "name == \"Ann\" or total == \"x\""
    let text := "Full Name\tUser Action\tTimestamp\n" ++
      "Ann\tJoined\t2021-03-15 10:00:00\n" ++ "Bob\tLeft\t2021-03-15 11:00:00\n"
    let outcome := run ["report.tsv", query] {} fun _ => .ok text.toUTF8.data.toList
    outcome.ending.exitCode = 2 ∧ outcome.output = "" ∧
      outcome.notes = ["Error: cannot apply `==` to duration and string"] := by
  intro query text outcome
  let o : Options := ⟨.utf8, Options.defaultFormat, false, .warn, "report.tsv", query⟩
  let s : Search :=
    ⟨⟨[.field .name]⟩, some (.join .or (.compare .eq (.field .name) (.literal (.text "Ann")))
      (.compare .eq (.field .total) (.literal (.text "x"))))⟩
  let closedAt : Instant := ⟨1615806000, 0, by decide⟩
  let ann := Attendee.ofEvents "Ann" [⟨.joined, ⟨1615802400, 0, by decide⟩⟩] closedAt
  let bob := Attendee.ofEvents "Bob" [⟨.left, closedAt⟩] closedAt
  have hread : Options.read ["report.tsv", query] {} = .ok o := by decide +kernel
  have hasked : Asked o.format o.query s := ⟨by decide +kernel, by decide +kernel⟩
  have hloaded : Loaded o.encoding (.ok text.toUTF8.data.toList) text [ann, bob] :=
    ⟨⟨_, rfl, by decide +kernel⟩, by decide +kernel⟩
  have hann : s.Answers [ann] := by
    intro a ha
    obtain rfl := List.mem_singleton.mp ha
    exact ⟨true, by decide +kernel⟩
  have hbob : s.Unanswered [ann, bob] (.mismatch .eq .span .text) :=
    ⟨[ann], bob, [], rfl, hann, by decide +kernel⟩
  have hrun := (run_all_or_nothing hread fun _ => .ok text.toUTF8.data.toList).2.2.2.2.2
  exact hrun _ _ (.answering hasked hloaded hbob)

end RollCall.Command
