/-
The stages of a search.

A search goes through three stages: its two texts are read, the report is loaded, and
everybody in it is asked about.  For each stage it is said here when it succeeds and with
what, and when it fails and why; a failure says that whatever comes before it went well.

Asking is the stage that goes on after an answer.  It collects who matches as it goes, but
what it has collected is given only if nobody's answer is an error: otherwise the first
error is all there is, whoever matched before.
-/
import Mathlib.Data.List.Basic
import RollCall.Command.Search
import RollCall.Proofs.Result

namespace RollCall.Command

/-! ### Reading the texts -/

/-- The search is what the texts ask for. -/
structure Asked (format query : String) (s : Search) : Prop where
  template : Template.ofText format = .ok s.template
  query : Query.request query = .ok s.query

/-- Why there is no search; the template is read first. -/
inductive Unasked (format query : String) : Failure → Prop
  | template {e : TemplateError} (h : Template.ofText format = .error e) :
      Unasked format query (.template e)
  | query {t : Template} {e : Query.Error} (ht : Template.ofText format = .ok t)
      (h : Query.request query = .error e) : Unasked format query (.query e)

namespace Search

theorem ofTexts_eq_ok_iff {format query : String} {s : Search} :
    ofTexts format query = .ok s ↔ Asked format query s := by
  unfold ofTexts
  constructor
  · intro h
    split at h
    · cases h
    · rename_i t ht
      split at h
      · cases h
      · rename_i q hq
        obtain rfl := Except.ok.inj h
        exact ⟨ht, hq⟩
  · rintro ⟨ht, hq⟩
    simp only [ht, hq]

theorem ofTexts_eq_error_iff {format query : String} {f : Failure} :
    ofTexts format query = .error f ↔ Unasked format query f := by
  unfold ofTexts
  constructor
  · intro h
    split at h
    · rename_i e he
      obtain rfl := Except.error.inj h
      exact .template he
    · rename_i t ht
      split at h
      · rename_i e he
        obtain rfl := Except.error.inj h
        exact .query ht he
      · cases h
  · intro h
    cases h with
    | template h => simp only [h]
    | query ht h => simp only [ht, h]

end Search

/-! ### Loading the report -/

/-- The file holds bytes that decode to the text, and the text is a report of the attendees. -/
structure Loaded (encoding : Encoding) (content : Except FileError (List UInt8)) (text : String)
    (as : List Attendee) : Prop where
  decoded : ∃ bytes, content = .ok bytes ∧ encoding.decode? bytes = some text
  report : Report.attendees text = .ok as

/-- Why there is no report. -/
inductive Unloaded (path : String) (encoding : Encoding) :
    Except FileError (List UInt8) → Failure → Prop
  | file {e : FileError} : Unloaded path encoding (.error e) (.file path e)
  | encoding {bytes : List UInt8} (h : encoding.decode? bytes = none) :
      Unloaded path encoding (.ok bytes) (.encoding encoding)
  | report {bytes : List UInt8} {text : String} {e : ReportError}
      (hd : encoding.decode? bytes = some text) (h : Report.attendees text = .error e) :
      Unloaded path encoding (.ok bytes) (.report e)

theorem load_eq_ok_iff {path : String} {encoding : Encoding}
    {content : Except FileError (List UInt8)} {as : List Attendee} :
    load path encoding content = .ok as ↔ ∃ text, Loaded encoding content text as := by
  unfold load
  constructor
  · intro h
    split at h
    · cases h
    · rename_i bytes
      split at h
      · cases h
      · rename_i text hd
        exact ⟨text, ⟨bytes, rfl, hd⟩, Result.mapError_eq_ok.mp h⟩
  · rintro ⟨text, ⟨bytes, rfl, hd⟩, hr⟩
    simp only [hd]
    exact Result.mapError_eq_ok.mpr hr

theorem load_eq_error_iff {path : String} {encoding : Encoding}
    {content : Except FileError (List UInt8)} {f : Failure} :
    load path encoding content = .error f ↔ Unloaded path encoding content f := by
  unfold load
  constructor
  · intro h
    split at h
    · obtain rfl := Except.error.inj h
      exact .file
    · split at h
      · rename_i hd
        obtain rfl := Except.error.inj h
        exact .encoding hd
      · rename_i hd
        obtain ⟨e, hr, rfl⟩ := Result.mapError_eq_error.mp h
        exact .report hd hr
  · intro h
    cases h with
    | file => rfl
    | encoding hd => simp only [hd]
    | report hd hr =>
        simp only [hd]
        exact Result.mapError_eq_error.mpr ⟨_, hr, rfl⟩

/-! ### Asking about everybody -/

namespace Search

/-- The answer for an attendee. -/
def accepts (s : Search) : Query.Predicate :=
  Query.Predicate.ofRequest s.query

/-- Those of whom the query is true, in their order. -/
def matching (s : Search) (as : List Attendee) : List Attendee :=
  as.filter fun a => s.accepts a = .ok true

/-- The query has an answer for everybody. -/
def Answers (s : Search) (as : List Attendee) : Prop :=
  ∀ a ∈ as, ∃ r, s.accepts a = .ok r

/-- The first attendee for whom the query has no answer, and why. -/
def Unanswered (s : Search) (as : List Attendee) (e : CompareError) : Prop :=
  ∃ before a after, as = before ++ a :: after ∧ s.Answers before ∧ s.accepts a = .error e

variable {s : Search}

theorem select_cons_of_error {a : Attendee} {e : CompareError} (h : s.accepts a = .error e)
    (as : List Attendee) : select s.accepts (a :: as) = .error e := by
  rw [select, h]

theorem select_cons_of_ok {a : Attendee} {r : Bool} (h : s.accepts a = .ok r)
    (as : List Attendee) :
    select s.accepts (a :: as) =
      (select s.accepts as).map fun chosen => if r then a :: chosen else chosen := by
  rw [select, h]

/-- Whoever matches is kept in front of those who match behind. -/
theorem matching_cons {a : Attendee} {r : Bool} (h : s.accepts a = .ok r) (as : List Attendee) :
    s.matching (a :: as) = if r then a :: s.matching as else s.matching as := by
  cases r with
  | true => exact List.filter_cons_of_pos (by simp [h])
  | false => exact List.filter_cons_of_neg (by simp [h])

theorem answers_cons {a : Attendee} {as : List Attendee} :
    s.Answers (a :: as) ↔ (∃ r, s.accepts a = .ok r) ∧ s.Answers as :=
  List.forall_mem_cons

/-- If everybody has an answer, those who match are chosen. -/
theorem select_of_answers :
    ∀ as : List Attendee, s.Answers as → select s.accepts as = .ok (s.matching as) := by
  intro as
  induction as with
  | nil => intro _; rfl
  | cons a as ih =>
      intro h
      obtain ⟨⟨r, hr⟩, has⟩ := answers_cons.mp h
      rw [select_cons_of_ok hr, ih has, matching_cons hr]
      rfl

/-- The first error stands for all, whoever is asked before and behind. -/
theorem select_of_unanswered {a : Attendee} {e : CompareError} (h : s.accepts a = .error e)
    (after : List Attendee) :
    ∀ before : List Attendee, s.Answers before →
      select s.accepts (before ++ a :: after) = .error e := by
  intro before
  induction before with
  | nil => intro _; exact select_cons_of_error h after
  | cons b before ih =>
      intro hbefore
      obtain ⟨⟨r, hr⟩, hrest⟩ := answers_cons.mp hbefore
      rw [List.cons_append, select_cons_of_ok hr, ih hrest]
      rfl

/-- Either everybody has an answer, or there is a first one who has none. -/
theorem answers_or_unanswered (s : Search) :
    ∀ as : List Attendee, s.Answers as ∨ ∃ e, s.Unanswered as e := by
  intro as
  induction as with
  | nil => exact .inl (by simp [Answers])
  | cons a as ih =>
      cases ha : s.accepts a with
      | error e => exact .inr ⟨e, [], a, as, rfl, by simp [Answers], ha⟩
      | ok r =>
          rcases ih with has | ⟨e, before, b, after, rfl, hbefore, hb⟩
          · exact .inl (answers_cons.mpr ⟨⟨r, ha⟩, has⟩)
          · exact .inr ⟨e, a :: before, b, after, rfl, answers_cons.mpr ⟨⟨r, ha⟩, hbefore⟩, hb⟩

theorem chosen_of_answers {as : List Attendee} (h : s.Answers as) :
    s.chosen as = .ok (s.matching as) :=
  Result.mapError_eq_ok.mpr (select_of_answers as h)

theorem chosen_of_unanswered {as : List Attendee} {e : CompareError} (h : s.Unanswered as e) :
    s.chosen as = .error (.evaluation e) := by
  obtain ⟨before, a, after, rfl, hbefore, ha⟩ := h
  exact Result.mapError_eq_error.mpr ⟨e, select_of_unanswered ha after before hbefore, rfl⟩

end Search

end RollCall.Command
