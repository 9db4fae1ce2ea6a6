import Plotter.Proofs.Numbers

/-!
# Where a scan stops

A character is at fault if it can stand in no source, or if a run of digits and points begins with
it that is no number. Faults are local: where a text is cut, but not within such a run, the faults
of the text are those of the two parts. So a text has tokens if and only if nothing in it is at
fault, and a scan that fails stops at the first fault.
-/

namespace Plotter

open Numeral (isDigit)
open Token (isNumeric number? ofSymbol? scan scanFrom)

/-- Whether a character can stand in a source: a space, a digit, a point, a letter, the symbol of an
operator, or a parenthesis. -/
def isAllowed (c : Char) : Bool :=
  c = ' ' || isDigit c || c = '.' || c.isAlpha || c ∈ symbols

/-- A run of digits and points that is not part of a longer one begins at the position. -/
def RunAt (cs : List Char) (p : Nat) (run : List Char) : Prop :=
  ∃ before after, cs = before ++ (run ++ after) ∧ before.length = p ∧ run ≠ [] ∧
    (∀ c ∈ run, isNumeric c = true) ∧ (∀ c ∈ before.getLast?, isNumeric c = false) ∧
    ∀ c ∈ after.head?, isNumeric c = false

/-- The character at the position can stand in no source, or begins a run of digits and points that
has no digit or a second point. -/
def Offends (cs : List Char) (p : Nat) : Prop :=
  (∃ c, cs[p]? = some c ∧ isAllowed c = false) ∨
    ∃ run, RunAt cs p run ∧ ((∀ c ∈ run, isDigit c = false) ∨ 2 ≤ run.count '.')

/-- The error is about the first offending position of the text. -/
structure StopsAt (cs : List Char) (p : Nat) (e : LexError) : Prop where
  offends : Offends cs p
  first : ∀ q < p, ¬ Offends cs q
  character : cs[p]? = some e.character
  /-- The error has a note if and only if it is about a run. -/
  detail : e.detail ≠ "" ↔ ∃ run, RunAt cs p run
  /-- What stands before that position has tokens. -/
  before : ∃ ts, scan (String.ofList (cs.take p)) = .ok ts

/-- No run of digits and points goes from the end of one text into the beginning of the other. -/
def Seam (cs ds : List Char) : Prop :=
  ∀ x ∈ cs.getLast?, ∀ y ∈ ds.head?, isNumeric x = true → isNumeric y = false

variable {c : Char} {cs ds run rest : List Char} {p position : Nat} {t : Token}
  {ts : List Token} {e : LexError}

/-! ## Characters -/

theorem isAllowed_iff : isAllowed c = true ↔
    c = ' ' ∨ isNumeric c = true ∨ c.isAlpha = true ∨ (ofSymbol? c).isSome = true := by
  rw [isSome_ofSymbol?_iff]
  simp only [isAllowed, isNumeric, Bool.or_eq_true, decide_eq_true_eq]
  tauto

theorem isNumeric_of_ofSymbol? (h : ofSymbol? c = some t) : isNumeric c = false :=
  (breaks_eq_true_iff.1 (breaks_of_ofSymbol? h).1).1

/-! ## Faults are local -/

/-- Where a run stands, there is a character of it. -/
theorem RunAt.exists_getElem? (h : RunAt cs p run) :
    ∃ c ∈ run, cs[p]? = some c ∧ isNumeric c = true := by
  obtain ⟨before, after, rfl, rfl, hne, hrun, -⟩ := h
  obtain ⟨c, run, rfl⟩ := List.exists_cons_of_ne_nil hne
  exact ⟨c, by simp, by simp, hrun c (by simp)⟩

theorem seam_of_head? (h : ∀ c ∈ ds.head?, isNumeric c = false) : Seam cs ds :=
  fun _ _ y hy _ => h y hy

/-- A text without characters of numbers can be joined to anything. -/
theorem seam_of_forall (h : ∀ c ∈ cs, isNumeric c = false) : Seam cs ds := by
  intro x hx _ _ hnumeric
  rw [h x (List.mem_of_getLast? hx)] at hnumeric
  cases hnumeric

theorem seam_space : Seam [' '] ds := seam_of_forall (List.forall_mem_singleton.2 rfl)

theorem seam_word (hword : ∀ c ∈ cs, c.isAlpha = true) : Seam cs ds :=
  seam_of_forall fun c hc => isNumeric_of_isAlpha (hword c hc)

theorem seam_symbol (ht : ofSymbol? c = some t) : Seam [c] ds :=
  seam_of_forall (by simp [isNumeric_of_ofSymbol? ht])

theorem mem_getLast?_append (hne : ds ≠ []) : ds.getLast hne ∈ (cs ++ ds).getLast? := by
  rw [List.getLast?_append_of_ne_nil _ hne, List.getLast?_eq_some_getLast hne]
  rfl

/-- A run that begins before a seam ends there. -/
theorem runAt_append_left (hseam : Seam cs ds) (hp : p < cs.length) :
    RunAt (cs ++ ds) p run ↔ RunAt cs p run := by
  constructor
  · rintro ⟨before, after, hsplit, rfl, hne, hrun, hbefore, hafter⟩
    rcases List.append_eq_append_iff.1 hsplit with ⟨x, rfl, -⟩ | ⟨x, rfl, hx⟩
    · rw [List.length_append] at hp
      omega
    rcases List.append_eq_append_iff.1 hx with ⟨after, rfl, rfl⟩ | ⟨y, rfl, rfl⟩
    · refine ⟨before, after, rfl, rfl, hne, hrun, hbefore, fun c hc => hafter c ?_⟩
      exact List.head?_append_of_ne_nil _ (List.ne_nil_of_mem (List.mem_of_mem_head? hc)) ▸ hc
    · cases y with
      | nil => exact ⟨before, [], by simp, rfl, hne, hrun, hbefore, by simp⟩
      | cons d y =>
        -- The run goes on behind the seam.
        have hxne : x ≠ [] := by
          rintro rfl
          simp at hp
        have hd := hseam _ (mem_getLast?_append hxne) d rfl (hrun _ (by simp))
        rw [hrun d (by simp)] at hd
        cases hd
  · rintro ⟨before, after, rfl, rfl, hne, hrun, hbefore, hafter⟩
    refine ⟨before, after ++ ds, by simp, rfl, hne, hrun, hbefore, ?_⟩
    cases after with
    | nil =>
      rw [List.append_nil] at hseam
      exact fun c hc => hseam _ (mem_getLast?_append hne) c hc (hrun _ (List.getLast_mem hne))
    | cons d after => exact hafter

/-- A run that begins behind a seam has nothing to do with what is before it. -/
theorem runAt_append_right (hseam : Seam cs ds) :
    RunAt (cs ++ ds) (cs.length + p) run ↔ RunAt ds p run := by
  constructor
  · rintro ⟨before, after, hsplit, hlength, hne, hrun, hbefore, hafter⟩
    rcases List.append_eq_append_iff.1 hsplit with ⟨before, rfl, rfl⟩ | ⟨x, rfl, hx⟩
    · refine ⟨before, after, rfl, by simpa using hlength, hne, hrun, fun c hc => hbefore c ?_,
        hafter⟩
      exact List.getLast?_append_of_ne_nil _ (List.ne_nil_of_mem (List.mem_of_getLast? hc)) ▸ hc
    · simp only [List.length_append] at hlength
      obtain rfl : x = [] := List.length_eq_zero_iff.1 (by omega)
      exact ⟨[], after, hx.symm, by simp; omega, hne, hrun, by simp, hafter⟩
  · rintro ⟨before, after, rfl, rfl, hne, hrun, hbefore, hafter⟩
    refine ⟨cs ++ before, after, by simp, by simp, hne, hrun, ?_, hafter⟩
    rcases List.eq_nil_or_concat before with rfl | ⟨before, d, rfl⟩
    · obtain ⟨d, run, rfl⟩ := List.exists_cons_of_ne_nil hne
      intro c hc
      rw [List.append_nil] at hc
      by_contra hnumeric
      have hd := hseam c hc d rfl (by simpa using hnumeric)
      rw [hrun d (by simp)] at hd
      cases hd
    · simpa using hbefore

/-- Whether a place in the first text offends does not depend on the second. -/
theorem offends_append_left (hseam : Seam cs ds) (hp : p < cs.length) :
    Offends (cs ++ ds) p ↔ Offends cs p := by
  simp only [Offends, runAt_append_left hseam hp, List.getElem?_append_left hp]

/-- The same holds of the places in the second text. -/
theorem offends_append_right (hseam : Seam cs ds) :
    Offends (cs ++ ds) (cs.length + p) ↔ Offends ds p := by
  simp only [Offends, runAt_append_right hseam, List.getElem?_append_right (Nat.le_add_right _ p),
    Nat.add_sub_cancel_left]

/-! ## A text with tokens -/

theorem not_offends_nil : ¬ Offends [] p := by
  rintro (⟨c, hc, -⟩ | ⟨run, hrun, -⟩)
  · cases hc
  · obtain ⟨c, -, hc, -⟩ := hrun.exists_getElem?
    cases hc

/-- Two texts without faults that can be joined make one without faults. -/
theorem not_offends_append (hseam : Seam cs ds) (hcs : ∀ p, ¬ Offends cs p)
    (hds : ∀ p, ¬ Offends ds p) (p : Nat) : ¬ Offends (cs ++ ds) p := by
  rcases Nat.lt_or_ge p cs.length with hp | hp
  · rw [offends_append_left hseam hp]
    exact hcs p
  · obtain ⟨q, rfl⟩ := Nat.exists_eq_add_of_le hp
    rw [offends_append_right hseam]
    exact hds q

/-- Without digits and points, only characters that are not allowed are at fault. -/
theorem not_offends_of_not_numeric (hallowed : ∀ c ∈ cs, isAllowed c = true)
    (hnumeric : ∀ c ∈ cs, isNumeric c = false) (p : Nat) : ¬ Offends cs p := by
  rintro (⟨c, hc, hbad⟩ | ⟨run, hrun, -⟩)
  · rw [hallowed c (List.mem_of_getElem? hc)] at hbad
    cases hbad
  · obtain ⟨c, -, hc, hbad⟩ := hrun.exists_getElem?
    rw [hnumeric c (List.mem_of_getElem? hc)] at hbad
    cases hbad

/-- A run is the only one that begins in it, at its beginning. -/
theorem RunAt.eq_self {part : List Char} (hrun : ∀ c ∈ run, isNumeric c = true)
    (h : RunAt run p part) : part = run := by
  obtain ⟨before, after, rfl, -, -, -, hbefore, hafter⟩ := h
  obtain rfl : before = [] := by
    rcases List.eq_nil_or_concat before with rfl | ⟨before, d, rfl⟩
    · rfl
    · have hd := hbefore d (by simp)
      rw [hrun d (by simp)] at hd
      cases hd
  obtain rfl : after = [] := by
    cases after with
    | nil => rfl
    | cons d after =>
      have hd := hafter d rfl
      rw [hrun d (by simp)] at hd
      cases hd
  simp

/-- A number has no fault. -/
theorem IsNumber.not_offends (h : IsNumber run) (p : Nat) : ¬ Offends run p := by
  rintro (⟨c, hc, hbad⟩ | ⟨part, hpart, hbad⟩)
  · rw [isAllowed_iff.2 (.inr (.inl (h.numeric c (List.mem_of_getElem? hc))))] at hbad
    cases hbad
  · obtain rfl := hpart.eq_self h.numeric
    rcases hbad with hdigit | hpoint
    · obtain ⟨c, hc, hdigit'⟩ := h.digit
      rw [hdigit c hc] at hdigit'
      cases hdigit'
    · exact absurd h.point (by omega)

theorem not_offends_space (p : Nat) : ¬ Offends [' '] p :=
  not_offends_of_not_numeric (List.forall_mem_singleton.2 rfl) (List.forall_mem_singleton.2 rfl) p

theorem not_offends_word (hword : ∀ c ∈ cs, c.isAlpha = true) (p : Nat) : ¬ Offends cs p :=
  not_offends_of_not_numeric (fun c hc => isAllowed_iff.2 (.inr (.inr (.inl (hword c hc)))))
    (fun c hc => isNumeric_of_isAlpha (hword c hc)) p

theorem not_offends_symbol (ht : ofSymbol? c = some t) (p : Nat) : ¬ Offends [c] p :=
  not_offends_of_not_numeric (by simp [isAllowed_iff, ht]) (by simp [isNumeric_of_ofSymbol? ht]) p

/-- A text with tokens has no fault in it. -/
theorem Scans.not_offends (h : Scans cs ts) (p : Nat) : ¬ Offends cs p := by
  induction h generalizing p with
  | nil => exact not_offends_nil
  | space _ ih => exact not_offends_append seam_space not_offends_space ih p
  | number _ hrun hrest hvalue _ ih =>
    have hrun := (isNumber_of_number? hrun hvalue).not_offends
    exact not_offends_append (seam_of_head? hrest) hrun ih p
  | name _ hword _ _ ih => exact not_offends_append (seam_word hword) (not_offends_word hword) ih p
  | symbol ht _ ih => exact not_offends_append (seam_symbol ht) (not_offends_symbol ht) ih p

/-! ## The first fault -/

theorem eq_error_of_map {found : Except LexError (List Token)} {f : List Token → List Token}
    (h : found.map f = .error e) : found = .error e := by
  cases found with
  | ok ts => cases h
  | error e' =>
    cases h
    rfl

/-- A character that no token begins with stops the scan at once. -/
theorem stopsAt_stray (hc : isAllowed c = false) : StopsAt (c :: cs) 0 ⟨position, c, .stray⟩ where
  offends := .inl ⟨c, rfl, hc⟩
  first := by simp
  character := rfl
  detail := by
    refine ⟨fun h => absurd rfl h, ?_⟩
    rintro ⟨run, hrun⟩
    obtain ⟨d, -, hd, hnumeric⟩ := hrun.exists_getElem?
    cases hd
    rw [isAllowed_iff.2 (.inr (.inl hnumeric))] at hc
    cases hc
  before := ⟨[], scan_eq_ok_iff.2 .nil⟩

/-- So does a run of digits and points that is no number. -/
theorem stopsAt_badNumber (position : Nat) (hrun : ∀ x ∈ c :: run, isNumeric x = true)
    (hrest : ∀ x ∈ rest.head?, isNumeric x = false) (hbad : number? (c :: run) = none) :
    StopsAt (c :: run ++ rest) 0 ⟨position, c, .badNumber (String.ofList (c :: run))⟩ := by
  have hat : RunAt (c :: run ++ rest) 0 (c :: run) :=
    ⟨[], rest, rfl, rfl, by simp, hrun, by simp, hrest⟩
  refine ⟨.inr ⟨c :: run, hat, ?_⟩, by simp, rfl, ⟨fun _ => ⟨_, hat⟩, fun _ => ?_⟩,
    ⟨[], scan_eq_ok_iff.2 .nil⟩⟩
  · by_contra hgood
    simp only [not_or, not_forall, Nat.not_le, Bool.not_eq_false] at hgood
    obtain ⟨⟨d, hd, hdigit⟩, hpoint⟩ := hgood
    have hnumber : IsNumber (c :: run) := ⟨hrun, ⟨d, hd, hdigit⟩, by omega⟩
    rw [number?_of_isNumber hnumber] at hbad
    cases hbad
  · exact fun hdetail => absurd (String.append_eq_empty_iff.1 hdetail).1 (by decide)

/-- What is found first behind a text without faults is found first in the whole. -/
theorem StopsAt.append_left (h : StopsAt ds p e) (hseam : Seam cs ds)
    (hclean : ∀ q, ¬ Offends cs q)
    (hscan : ∀ us ts, (∀ c ∈ us.head?, c ∈ ds.head?) → Scans us ts → ∃ vs, Scans (cs ++ us) vs) :
    StopsAt (cs ++ ds) (cs.length + p) e where
  offends := (offends_append_right hseam).2 h.offends
  first := by
    intro q hq
    rcases Nat.lt_or_ge q cs.length with hlt | hge
    · rw [offends_append_left hseam hlt]
      exact hclean q
    · obtain ⟨r, rfl⟩ := Nat.exists_eq_add_of_le hge
      rw [offends_append_right hseam]
      exact h.first r (by omega)
  character := by
    rw [List.getElem?_append_right (Nat.le_add_right _ p), Nat.add_sub_cancel_left]
    exact h.character
  detail := by
    simp only [runAt_append_right hseam]
    exact h.detail
  before := by
    obtain ⟨ts, hts⟩ := h.before
    rw [scan_eq_ok_iff, String.toList_ofList] at hts
    have hhead : ∀ c ∈ (ds.take p).head?, c ∈ ds.head? := by
      intro c hc
      rw [List.head?_take] at hc
      split_ifs at hc
      · cases hc
      · exact hc
    obtain ⟨vs, hvs⟩ := hscan _ _ hhead hts
    refine ⟨vs, ?_⟩
    rwa [scan_eq_ok_iff, String.toList_ofList, List.take_length_add_append]

/-- The scan of a text stops at its first fault, wherever the text begins. -/
theorem stopsAt_of_scanFrom (h : scanFrom position cs = .error e) :
    ∃ p, e.position = position + p ∧ StopsAt cs p e := by
  fun_induction scanFrom position cs with
  | case1 => cases h
  | case2 position cs ih =>
    obtain ⟨p, hp, hstop⟩ := ih h
    refine ⟨1 + p, by omega, hstop.append_left seam_space not_offends_space ?_⟩
    exact fun us ts _ hus => ⟨ts, .space hus⟩
  | case3 position c cs hspace hnumeric run value hvalue =>
    rename_i ih
    obtain ⟨p, hp, hstop⟩ := ih (eq_error_of_map h)
    have hrun : ∀ x ∈ run, isNumeric x = true := forall_mem_run hnumeric
    have hrest := head?_dropWhile (p := isNumeric) cs
    have hwhole := hstop.append_left (seam_of_head? hrest)
      (isNumber_of_number? hrun hvalue).not_offends fun us ts hhead hus =>
        ⟨_, .number (by simp) hrun (fun x hx => hrest x (hhead x hx)) hvalue hus⟩
    rw [run_append] at hwhole
    exact ⟨run.length + p, by omega, hwhole⟩
  | case4 position c cs hspace hnumeric run hbad =>
    cases h
    have hrun : ∀ x ∈ run, isNumeric x = true := forall_mem_run hnumeric
    have hstop := stopsAt_badNumber position hrun (head?_dropWhile cs) hbad
    rw [run_append] at hstop
    exact ⟨0, rfl, hstop⟩
  | case5 position c cs hspace hnumeric halpha run =>
    rename_i ih
    obtain ⟨p, hp, hstop⟩ := ih (eq_error_of_map h)
    have hword : ∀ x ∈ run, x.isAlpha = true := forall_mem_run halpha
    have hrest := head?_dropWhile (p := Char.isAlpha) cs
    have hwhole := hstop.append_left (seam_word hword) (not_offends_word hword)
      fun us ts hhead hus =>
        ⟨_, .name (by simp) hword (fun x hx => hrest x (hhead x hx)) hus⟩
    rw [run_append] at hwhole
    exact ⟨run.length + p, by omega, hwhole⟩
  | case6 position c cs _ _ _ t ht ih =>
    obtain ⟨p, hp, hstop⟩ := ih (eq_error_of_map h)
    refine ⟨1 + p, by omega, hstop.append_left (seam_symbol ht) (not_offends_symbol ht) ?_⟩
    exact fun us ts _ hus => ⟨t :: ts, .symbol ht hus⟩
  | case7 position c cs hspace hnumeric halpha ht =>
    cases h
    refine ⟨0, rfl, stopsAt_stray ?_⟩
    rw [← Bool.not_eq_true, isAllowed_iff]
    simp [hspace, hnumeric, halpha, ht]

/-- The scan fails if and only if something in the source is at fault, and it stops at the first
such character, whose position and which it reports. What stands before that has tokens, and there
is a note on the error if and only if a run of digits and points begins there. -/
theorem scan_stops_at_first_fault (source : String) :
    ((∃ e, scan source = .error e) ↔ ∃ p, Offends source.toList p) ∧
      ∀ e, scan source = .error e → StopsAt source.toList e.position e := by
  have hstops (e : LexError) (h : scan source = .error e) : StopsAt source.toList e.position e := by
    obtain ⟨p, hp, hstop⟩ := stopsAt_of_scanFrom h
    rwa [hp, Nat.zero_add]
  refine ⟨⟨fun ⟨e, h⟩ => ⟨_, (hstops e h).offends⟩, fun ⟨p, hp⟩ => ?_⟩, hstops⟩
  cases h : scan source with
  | ok ts => exact absurd hp ((scan_eq_ok_iff.1 h).not_offends p)
  | error e => exact ⟨e, rfl⟩

-- The run that is no number begins before the letter that is not allowed.
example : scan "2 + 1.2.3é" = .error ⟨4, '1', .badNumber "1.2.3"⟩ := by decide +kernel

end Plotter
