import Plotter.Proofs.FreeVariables
import Plotter.Session

/-!
# Runs of a session

Compiling a text twice in a row leaves the same program as compiling it once. A session that skips
unchanged texts therefore holds, after any edits, what compiling each of the texts in turn would
leave, and the error it remembers is that of its last text. Under either policy this program has a
closed form: it is that of the last good text, or that of the last text if this one is good.
-/

namespace Plotter

namespace Session

variable {settings : SessionSettings} {sources : List String} {source : String} {s : Session}
  {current : Option Expression} {e : Expression} {o : Outcome}

/-! ## Compiling one text -/

/-- Whether a text is short enough and compiles. -/
def isGood (settings : SessionSettings) (source : String) : Bool :=
  decide (source.length ≤ settings.maxLength) && (Expression.compile source).isOk

/-- Why a text is refused, if it is. -/
def refusal (settings : SessionSettings) (source : String) : Option CompileError :=
  match compileWithin settings source with
  | .ok _ => none
  | .error e => some e

/-- The program after a text has been compiled in place of the current one. -/
def replace (settings : SessionSettings) (current : Option Expression) (source : String) :
    Option Expression :=
  match compileWithin settings source, settings.retention with
  | .ok e, _ => some e
  | .error _, .keepLast => current
  | .error _, .clear => none

theorem compileWithin_eq_ok_iff :
    compileWithin settings source = .ok e ↔
      source.length ≤ settings.maxLength ∧ Expression.compile source = .ok e := by
  rw [compileWithin]
  split_ifs with hlong
  · simp [Int.not_le.2 hlong]
  · simp [Int.not_lt.1 hlong]

theorem isGood_iff :
    isGood settings source = true ↔ ∃ e, compileWithin settings source = .ok e := by
  simp only [compileWithin_eq_ok_iff, isGood, Bool.and_eq_true, decide_eq_true_eq, exists_and_left]
  refine and_congr_right fun _ => ?_
  cases Expression.compile source with
  | error d => simp [Except.isOk, Except.toBool]
  | ok e => simp [Except.isOk, Except.toBool]

/-- A text that is not good is refused for some reason. -/
theorem exists_error_of_not_isGood (h : isGood settings source = false) :
    ∃ d, compileWithin settings source = .error d := by
  cases hcompile : compileWithin settings source with
  | error d => exact ⟨d, rfl⟩
  | ok e => simp [isGood_iff.2 ⟨e, hcompile⟩] at h

theorem refusal_eq_none_iff : refusal settings source = none ↔ isGood settings source = true := by
  rw [isGood_iff, refusal]
  cases compileWithin settings source <;> simp

/-- A good text replaces what was there. -/
theorem replace_of_isGood (h : isGood settings source = true) :
    replace settings current source = (Expression.compile source).toOption := by
  obtain ⟨e, he⟩ := isGood_iff.1 h
  rw [replace, he, (compileWithin_eq_ok_iff.1 he).2]
  rfl

/-- If the last program is kept, another text leaves it. -/
theorem replace_of_keepLast (hretention : settings.retention = .keepLast)
    (h : isGood settings source = false) : replace settings current source = current := by
  obtain ⟨d, hd⟩ := exists_error_of_not_isGood h
  simp [replace, hd, hretention]

/-- If it is cleared, another text leaves nothing. -/
theorem replace_of_clear (hretention : settings.retention = .clear)
    (h : isGood settings source = false) : replace settings current source = none := by
  obtain ⟨d, hd⟩ := exists_error_of_not_isGood h
  simp [replace, hd, hretention]

/-- Compiling a text once more leaves the program as it is. -/
theorem replace_replace :
    replace settings (replace settings current source) source =
      replace settings current source := by
  cases hgood : isGood settings source with
  | true => rw [replace_of_isGood hgood, replace_of_isGood hgood]
  | false =>
    cases hretention : settings.retention with
    | keepLast => rw [replace_of_keepLast hretention hgood]
    | clear => rw [replace_of_clear hretention hgood, replace_of_clear hretention hgood]

/-! ## Programs after a list of texts -/

/-- The program after the texts have been compiled in turn. -/
def retained (settings : SessionSettings) (sources : List String) : Option Expression :=
  sources.foldl (replace settings) none

theorem retained_concat :
    retained settings (sources ++ [source]) =
      replace settings (retained settings sources) source := by
  rw [retained, List.foldl_append]
  rfl

/-- A text that is compiled again right away leaves nothing new. -/
theorem retained_concat_of_getLast? (h : sources.getLast? = some source) :
    retained settings (sources ++ [source]) = retained settings sources := by
  obtain ⟨history, rfl⟩ := List.getLast?_eq_some_iff.1 h
  rw [retained_concat, retained_concat, replace_replace]

/-- If the last program is kept, it is that of the last good text. -/
theorem retained_of_keepLast (h : settings.retention = .keepLast) (sources : List String) :
    retained settings sources =
      (sources.filter (isGood settings)).getLast?.bind fun source =>
        (Expression.compile source).toOption := by
  induction sources using List.reverseRecOn with
  | nil => rfl
  | append_singleton sources source ih =>
    rw [retained_concat, List.filter_append]
    cases hgood : isGood settings source with
    | true => simp [hgood, replace_of_isGood hgood]
    | false => simp [hgood, replace_of_keepLast h hgood, ih]

/-- If it is cleared, the last text alone counts. -/
theorem retained_of_clear (h : settings.retention = .clear) (sources : List String)
    (source : String) :
    retained settings (sources ++ [source]) =
      if isGood settings source then (Expression.compile source).toOption else none := by
  rw [retained_concat]
  cases hgood : isGood settings source with
  | true => simp [replace_of_isGood hgood]
  | false => simp [replace_of_clear h hgood]

/-- The program that is retained is that of a text, in full. -/
theorem compile_of_retained (h : retained settings sources = some e) :
    Expression.compile e.source = .ok e := by
  induction sources using List.reverseRecOn with
  | nil => cases h
  | append_singleton sources source ih =>
    rw [retained_concat, replace] at h
    split at h
    · rename_i found hfound
      cases h
      have hcompile := (compileWithin_eq_ok_iff.1 hfound).2
      obtain ⟨-, -, -, hsource⟩ := Expression.compile_eq_ok_iff.1 hcompile
      rw [hsource, hcompile]
    · exact ih h
    · cases h

/-! ## Outcomes -/

/-- An outcome that tells what compiling the text in place of the current program gives. -/
structure Reports (settings : SessionSettings) (current : Option Expression) (source : String)
    (o : Outcome) : Prop where
  source_eq : o.source = source
  compiled_eq : o.compiled = replace settings current source
  error_eq : o.error = refusal settings source

/-- Reports on the same text in place of the same program differ in their notes only. -/
theorem Reports.agree {o' : Outcome} (h : Reports settings current source o)
    (h' : Reports settings current source o') :
    o.source = o'.source ∧ o.compiled = o'.compiled ∧ o.error = o'.error ∧ o.ok = o'.ok := by
  have herror : o.error = o'.error := h.error_eq.trans h'.error_eq.symm
  exact ⟨h.source_eq.trans h'.source_eq.symm, h.compiled_eq.trans h'.compiled_eq.symm, herror,
    by rw [Outcome.ok, Outcome.ok, herror]⟩

/-- Compiling again reports what the text is worth. -/
theorem reports_recompile (s : Session) (source : String) :
    Reports s.settings s.compiled source (s.recompile source).1 := by
  rw [recompile]
  cases hcompile : compileWithin s.settings source with
  | ok e => exact ⟨rfl, by simp [replace, hcompile], by simp [refusal, hcompile]⟩
  | error d =>
    refine ⟨rfl, ?_, by simp [refusal, hcompile]⟩
    cases hretention : s.settings.retention <;> simp [replace, hcompile, hretention]

/-- The same text once more is not compiled. -/
theorem outcome_of_unchanged (hlast : s.last = some o) (hsource : o.source = source) :
    s.outcome source =
      ({ source, compiled := s.compiled, error := o.error, recompiled := false,
         details := "unchanged source: compilation skipped" }, []) := by
  rw [outcome, hlast]
  exact if_pos hsource

theorem outcome_of_changed (h : s.last.map Outcome.source ≠ some source) :
    s.outcome source = s.recompile source := by
  rw [outcome]
  cases hlast : s.last with
  | none => rfl
  | some o => exact if_neg fun hsource => h (by simp [hlast, hsource])

/-- What is said about a text that does not compile. -/
def refusalRecord (source : String) (e : CompileError) : LogRecord :=
  ⟨.debug, "Compile failed for " ++ Text.quoted source ++ ": " ++ e.message⟩

theorem recompile_recompiled (s : Session) (source : String) :
    (s.recompile source).1.recompiled = true := by
  rw [recompile]
  split <;> rfl

theorem recompile_log (s : Session) (source : String) :
    (s.recompile source).2 = (s.recompile source).1.error.toList.map (refusalRecord source) := by
  rw [recompile]
  split <;> rfl

/-- Nothing is compiled if and only if the text is that of the last outcome. -/
theorem outcome_recompiled_eq_false_iff :
    (s.outcome source).1.recompiled = false ↔ s.last.map Outcome.source = some source := by
  constructor
  · intro h
    by_contra hchanged
    rw [outcome_of_changed hchanged, recompile_recompiled] at h
    cases h
  · intro h
    obtain ⟨o, hlast, hsource⟩ := Option.map_eq_some_iff.1 h
    rw [outcome_of_unchanged hlast hsource]

/-- A refusal is recorded when the text is compiled, and then only. -/
theorem outcome_log (s : Session) (source : String) :
    (s.outcome source).2 =
      if (s.outcome source).1.recompiled then
        (s.outcome source).1.error.toList.map (refusalRecord source)
      else [] := by
  by_cases hsame : s.last.map Outcome.source = some source
  · obtain ⟨o, hlast, hsource⟩ := Option.map_eq_some_iff.1 hsame
    rw [outcome_of_unchanged hlast hsource]
    rfl
  · rw [outcome_of_changed hsame, recompile_recompiled, recompile_log]
    rfl

/-! ## Runs of edits -/

/-- An edit that compiles the text even if it is unchanged. -/
def updateAlways (s : Session) (source : String) : Session × List LogRecord :=
  let (outcome, log) := s.recompile source
  ({ s with compiled := outcome.compiled, last := some outcome }, log)

/-- The session after a list of texts, under the given way of taking one in. -/
def follow (edit : Session → String → Session × List LogRecord) (settings : SessionSettings)
    (sources : List String) : Session :=
  sources.foldl (fun s source => (edit s source).1) { settings }

/-- A session that has followed the edits: it holds the program they leave, and its last outcome
tells of the last text. -/
structure Follows (settings : SessionSettings) (sources : List String) (s : Session) : Prop where
  settings_eq : s.settings = settings
  compiled_eq : s.compiled = retained settings sources
  last_source : s.last.map Outcome.source = sources.getLast?
  last_compiled : ∀ o ∈ s.last, o.compiled = s.compiled
  last_error : ∀ o ∈ s.last, o.error = refusal settings o.source

namespace Follows

theorem start : Follows settings [] { settings } :=
  ⟨rfl, rfl, rfl, by simp, by simp⟩

/-- Taking in an outcome that reports on the next text carries the invariant on. -/
theorem concat (h : Follows settings sources s)
    (ho : Reports settings (retained settings sources) source o) :
    Follows settings (sources ++ [source]) { s with compiled := o.compiled, last := some o } where
  settings_eq := h.settings_eq
  compiled_eq := by rw [retained_concat, ← ho.compiled_eq]
  last_source := by simp [ho.source_eq]
  last_compiled := by simp
  last_error := by simp [ho.source_eq, ho.error_eq]

theorem reports_recompile (h : Follows settings sources s) (source : String) :
    Reports settings (retained settings sources) source (s.recompile source).1 := by
  have hreports := s.reports_recompile source
  rw [h.settings_eq, h.compiled_eq] at hreports
  exact hreports

/-- Skipping an unchanged text reports what compiling it would have. -/
theorem reports_outcome (h : Follows settings sources s) (source : String) :
    Reports settings (retained settings sources) source (s.outcome source).1 := by
  by_cases hsame : s.last.map Outcome.source = some source
  · obtain ⟨o, hlast, hsource⟩ := Option.map_eq_some_iff.1 hsame
    rw [outcome_of_unchanged hlast hsource]
    refine ⟨rfl, ?_, ?_⟩
    -- The current program may be that of an older text; compiling the text again would not tell.
    · rw [h.compiled_eq, ← retained_concat, retained_concat_of_getLast? (h.last_source ▸ hsame)]
    · rw [← hsource]
      exact h.last_error o hlast
  · rw [outcome_of_changed hsame]
    exact h.reports_recompile source

/-- An edit keeps a session in step with the texts. -/
theorem update (h : Follows settings sources s) (source : String) :
    Follows settings (sources ++ [source]) (s.update source).1 :=
  h.concat (h.reports_outcome source)

theorem updateAlways (h : Follows settings sources s) (source : String) :
    Follows settings (sources ++ [source]) (s.updateAlways source).1 :=
  h.concat (h.reports_recompile source)

end Follows

theorem follow_concat (edit : Session → String → Session × List LogRecord) :
    follow edit settings (sources ++ [source]) =
      (edit (follow edit settings sources) source).1 := by
  rw [follow, List.foldl_append]
  rfl

/-- Any kind of edit that does so keeps it in step all along. -/
theorem follows_follow {edit : Session → String → Session × List LogRecord}
    (hedit : ∀ {sources s}, Follows settings sources s →
      ∀ source, Follows settings (sources ++ [source]) (edit s source).1)
    (sources : List String) : Follows settings sources (follow edit settings sources) := by
  induction sources using List.reverseRecOn with
  | nil => exact .start
  | append_singleton sources source ih =>
    rw [follow_concat]
    exact hedit ih source

/-- That unchanged texts are skipped cannot be seen: after every edit of any history, a session that
compiles every text has the same program and, but for the notes, the same outcome. A text is skipped
if and only if it is that of the edit before. There is one record about an edit if its text was
compiled in vain, and none otherwise. -/
theorem follow_update_agrees (settings : SessionSettings) (history : List String)
    (source : String) :
    (follow update settings (history ++ [source])).compiled =
      (follow updateAlways settings (history ++ [source])).compiled ∧
    ∃ o o', (follow update settings (history ++ [source])).last = some o ∧
      (follow updateAlways settings (history ++ [source])).last = some o' ∧
      (o.source = o'.source ∧ o.compiled = o'.compiled ∧ o.error = o'.error ∧ o.ok = o'.ok) ∧
      (o.recompiled = false ↔ history.getLast? = some source) ∧
      (∀ e, o.recompiled = true → o.error = some e →
        ((follow update settings history).update source).2 = [refusalRecord source e]) ∧
      (¬ (o.recompiled = true ∧ o.error ≠ none) →
        ((follow update settings history).update source).2 = []) := by
  have hreal : Follows settings history (follow update settings history) :=
    follows_follow Follows.update history
  have hreference : Follows settings history (follow updateAlways settings history) :=
    follows_follow Follows.updateAlways history
  have hagree := (hreal.reports_outcome source).agree (hreference.reports_recompile source)
  rw [follow_concat, follow_concat]
  refine ⟨hagree.2.1, ((follow update settings history).outcome source).1,
    ((follow updateAlways settings history).recompile source).1, rfl, rfl, hagree, ?_, ?_, ?_⟩
  · rw [outcome_recompiled_eq_false_iff, hreal.last_source]
  · intro e hrecompiled herror
    show ((follow update settings history).outcome source).2 = _
    rw [outcome_log, if_pos hrecompiled, herror]
    rfl
  · intro hquiet
    show ((follow update settings history).outcome source).2 = _
    rw [outcome_log]
    split_ifs with hrecompiled
    · rw [not_and_not_right.1 hquiet hrecompiled]
      rfl
    · rfl

/-! ## Runs of calls -/

/-- A call of a session. -/
inductive Call where
  /-- An edit of the text. -/
  | update (source : String)
  /-- A question for the value at a point. -/
  | evaluate (x : Float)

/-- The session after a call. -/
def after (s : Session) : Call → Session
  | .update source => (s.update source).1
  | .evaluate _ => s

/-- The session after a run of calls. -/
def run (settings : SessionSettings) (calls : List Call) : Session :=
  calls.foldl after { settings }

/-- The texts of the edits among the calls. -/
def edits (calls : List Call) : List String :=
  calls.filterMap fun
    | .update source => some source
    | .evaluate _ => none

/-- Evaluations leave no trace in a session. -/
theorem run_eq_follow (settings : SessionSettings) (calls : List Call) :
    run settings calls = follow update settings (edits calls) := by
  induction calls using List.reverseRecOn with
  | nil => rfl
  | append_singleton calls call ih =>
    rw [run, List.foldl_append, edits, List.filterMap_append]
    cases call with
    | update source =>
      show (update (run settings calls) source).1 = _
      rw [ih]
      exact (follow_concat update).symm
    | evaluate x =>
      show run settings calls = follow update settings (edits calls ++ [])
      rw [ih, List.append_nil]

/-- A session is in step with the texts of its edits, whatever is evaluated in between. -/
theorem follows_run (settings : SessionSettings) (calls : List Call) :
    Follows settings (edits calls) (run settings calls) := by
  rw [run_eq_follow]
  exact follows_follow Follows.update _

theorem evaluate_of_follows (h : Follows settings sources s) (x : Float) (d : Defect) :
    s.evaluate x ≠ .error (.malformed d) := by
  rw [evaluate]
  cases hcompiled : s.compiled with
  | none => simp
  | some e =>
    exact evaluate_ne_malformed (compile_of_retained (h.compiled_eq.symm.trans hcompiled)) _ d

/-- After any calls, the last outcome tells of the last edit: its error is absent if and only if the
text is good, and its program is the current one. The current program is that of the last good text
under the one policy; under the other, it is that of the last text if this one is good. An
evaluation leaves the session as it is and never finds the program malformed. -/
theorem run_retains (settings : SessionSettings) (calls : List Call)
    (h : (edits calls).getLast? = some source) :
    (∃ o, (run settings calls).last = some o ∧ o.source = source ∧
      (o.error = none ↔ isGood settings source = true) ∧
      o.compiled = (run settings calls).compiled) ∧
    (settings.retention = .keepLast →
      (run settings calls).compiled =
        ((edits calls).filter (isGood settings)).getLast?.bind fun good =>
          (Expression.compile good).toOption) ∧
    (settings.retention = .clear →
      (run settings calls).compiled =
        if isGood settings source then (Expression.compile source).toOption else none) ∧
    ∀ x,
      run settings (calls ++ [.evaluate x]) = run settings calls ∧
      ((run settings calls).compiled = none →
        (run settings calls).evaluate x = .ok Double.nan) ∧
      (∀ e, (run settings calls).compiled = some e →
        (run settings calls).evaluate x = e.evaluateAt x) ∧
      ∀ d, (run settings calls).evaluate x ≠ .error (.malformed d) := by
  have hrun := follows_run settings calls
  refine ⟨?_, ?_, ?_, ?_⟩
  · obtain ⟨o, hlast, hsource⟩ := Option.map_eq_some_iff.1 (hrun.last_source.trans h)
    refine ⟨o, hlast, hsource, ?_, hrun.last_compiled o hlast⟩
    rw [hrun.last_error o hlast, hsource, refusal_eq_none_iff]
  · intro hretention
    rw [hrun.compiled_eq, retained_of_keepLast hretention]
  · intro hretention
    obtain ⟨history, hhistory⟩ := List.getLast?_eq_some_iff.1 h
    rw [hrun.compiled_eq, hhistory, retained_of_clear hretention]
  · intro x
    refine ⟨by simp [run, after], ?_, ?_, evaluate_of_follows hrun x⟩
    · intro hcompiled
      rw [evaluate, hcompiled]
    · intro e hcompiled
      rw [evaluate, hcompiled]

/-- A failing text leaves the program of the text before in place. -/
theorem run_retains_last_good :
    ∃ s, run {} [.update "2x", .evaluate 1, .update "2x+", .evaluate 1] = s ∧
      s.compiled = (Expression.compile "2x").toOption ∧ s.compiled.isSome = true ∧
      ∃ o, s.last = some o ∧ o.source = "2x+" ∧ o.error ≠ none := by
  have hedits : edits [.update "2x", .evaluate 1, .update "2x+", .evaluate 1] = ["2x", "2x+"] := rfl
  obtain ⟨⟨o, hlast, hsource, herror, -⟩, hcompiled, -⟩ :=
    run_retains {} [.update "2x", .evaluate 1, .update "2x+", .evaluate 1]
      (by rw [hedits, List.getLast?_cons_cons, List.getLast?_singleton])
  have hgood : isGood {} "2x" = true := by decide +kernel
  have hbad : isGood {} "2x+" = false := by decide +kernel
  have hprogram := hcompiled rfl
  rw [hedits, List.filter_cons_of_pos hgood, List.filter_cons_of_neg (by simp [hbad])] at hprogram
  refine ⟨_, rfl, hprogram, ?_, o, hlast, hsource, ?_⟩
  · rw [hprogram]
    decide +kernel
  · simp [herror, hbad]

end Session

end Plotter
