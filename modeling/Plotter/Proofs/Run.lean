import Mathlib.Data.List.Basic
import Mathlib.Data.List.Forall2

/-!
# Runs of a step function

Checking, evaluating and reordering all take in tokens one at a time and stop at the first fault. A
run over a concatenation is a run over its parts in turn, and a run that fails does so at a definite
token. Two runs whose steps go alike go alike as a whole. Where each token has a result of its own,
the results are there if and only if all of them are.
-/

namespace Plotter

variable {σ τ ε : Type} {step : σ → τ → Except ε σ} {s s' : σ} {xs ys : List τ} {e : ε}

theorem foldlM_append_of_ok (h : xs.foldlM step s = .ok s') :
    (xs ++ ys).foldlM step s = ys.foldlM step s' := by
  rw [List.foldlM_append, h]
  rfl

theorem foldlM_cons_of_ok {x : τ} (h : step s x = .ok s') :
    (x :: xs).foldlM step s = xs.foldlM step s' := by
  rw [List.foldlM_cons, h]
  rfl

theorem foldlM_cons_of_error {x : τ} (h : step s x = .error e) :
    (x :: xs).foldlM step s = .error e := by
  rw [List.foldlM_cons, h]
  rfl

/-- A run that succeeds begins with a step that succeeds. -/
theorem exists_step_of_foldlM_cons {x : τ} {s'' : σ} (h : (x :: xs).foldlM step s = .ok s'') :
    ∃ s', step s x = .ok s' ∧ xs.foldlM step s' = .ok s'' := by
  cases hx : step s x with
  | error e =>
    rw [foldlM_cons_of_error hx] at h
    cases h
  | ok s' =>
    rw [foldlM_cons_of_ok hx] at h
    exact ⟨s', rfl, h⟩

/-- A run over two lists is one over the first and then one over the second. -/
theorem exists_run_of_foldlM_append {s'' : σ} (h : (xs ++ ys).foldlM step s = .ok s'') :
    ∃ s', xs.foldlM step s = .ok s' ∧ ys.foldlM step s' = .ok s'' := by
  rw [List.foldlM_append] at h
  cases hxs : xs.foldlM step s with
  | error e =>
    rw [hxs] at h
    cases h
  | ok s' =>
    rw [hxs] at h
    exact ⟨s', rfl, h⟩

/-- The run goes through up to the token at the given index and fails there. -/
def FailsAt (step : σ → τ → Except ε σ) (s : σ) (xs : List τ) (i : Nat) (e : ε) : Prop :=
  ∃ s' x, (xs.take i).foldlM step s = .ok s' ∧ xs[i]? = some x ∧ step s' x = .error e

theorem failsAt_zero {x : τ} (h : step s x = .error e) : FailsAt step s (x :: xs) 0 e :=
  ⟨s, x, rfl, rfl, h⟩

/-- A step that succeeds moves the place of failure on by one. -/
theorem FailsAt.cons {x : τ} {i : Nat} (hx : step s x = .ok s') (h : FailsAt step s' xs i e) :
    FailsAt step s (x :: xs) (i + 1) e := by
  obtain ⟨t, y, ht, hy, he⟩ := h
  refine ⟨t, y, ?_, by simpa using hy, he⟩
  rw [List.take_succ_cons, foldlM_cons_of_ok hx]
  exact ht

/-- A run that fails at some token fails as a whole. -/
theorem FailsAt.foldlM_eq {i : Nat} (h : FailsAt step s xs i e) : xs.foldlM step s = .error e := by
  obtain ⟨t, x, ht, hx, he⟩ := h
  obtain ⟨hi, rfl⟩ := List.getElem?_eq_some_iff.1 hx
  have hsplit : xs = xs.take i ++ xs[i] :: xs.drop (i + 1) := by simp
  rw [hsplit, foldlM_append_of_ok ht]
  exact foldlM_cons_of_error he

/-- A run that fails does so at some token. -/
theorem exists_failsAt (h : xs.foldlM step s = .error e) : ∃ i, FailsAt step s xs i e := by
  induction xs generalizing s with
  | nil => cases h
  | cons x xs ih =>
    cases hx : step s x with
    | error d =>
      rw [foldlM_cons_of_error hx] at h
      cases h
      exact ⟨0, failsAt_zero hx⟩
    | ok s' =>
      rw [foldlM_cons_of_ok hx] at h
      obtain ⟨i, hi⟩ := ih h
      exact ⟨i + 1, hi.cons hx⟩

/-! ## Two runs -/

/-- Two results are alike if both are there, and are related, or if both are the same error. -/
inductive Alike {ε α β : Type} (R : α → β → Prop) : Except ε α → Except ε β → Prop where
  /-- Both results are there. -/
  | ok {a : α} {b : β} : R a b → Alike R (.ok a) (.ok b)
  /-- Both results are the same error. -/
  | error (e : ε) : Alike R (.error e) (.error e)

/-- If single steps from related states go alike, so do whole runs. -/
theorem foldlM_alike {σ' : Type} {R : σ → σ' → Prop} {step' : σ' → τ → Except ε σ'}
    (hstep : ∀ s s' x, R s s' → Alike R (step s x) (step' s' x)) (xs : List τ) {s : σ} {s' : σ'}
    (h : R s s') : Alike R (xs.foldlM step s) (xs.foldlM step' s') := by
  induction xs generalizing s s' with
  | nil => exact .ok h
  | cons x xs ih =>
    have hhead := hstep s s' x h
    rw [List.foldlM_cons, List.foldlM_cons]
    generalize step s x = r, step' s' x = r' at hhead
    cases hhead with
    | ok hnext => exact ih hnext
    | error e => exact .error e

/-! ## Results one by one -/

variable {α β : Type} {f : α → Except ε β} {as : List α} {bs : List β}

/-- Results in order, one for each item. -/
theorem mapM_eq_ok_iff : as.mapM f = .ok bs ↔ List.Forall₂ (fun a b => f a = .ok b) as bs := by
  induction as generalizing bs with
  | nil => cases bs <;> simp [pure, Except.pure]
  | cons a as ih =>
    rw [List.mapM_cons, List.forall₂_cons_left_iff]
    cases ha : f a with
    | error e => simp [bind, Except.bind]
    | ok b =>
      cases hrest : as.mapM f with
      | error e =>
        rw [hrest] at ih
        simp [bind, Except.bind, ← ih]
      | ok rest =>
        rw [hrest] at ih
        simp [bind, Except.bind, pure, Except.pure, ← ih, eq_comm]

theorem exists_right_of_forall₂ {R : α → β → Prop} {a : α} (h : List.Forall₂ R as bs)
    (ha : a ∈ as) : ∃ b ∈ bs, R a b := by
  induction h with
  | nil => cases ha
  | cons hfirst _ ih =>
    rcases List.mem_cons.1 ha with rfl | ha
    · exact ⟨_, List.mem_cons_self, hfirst⟩
    · obtain ⟨b, hb, hab⟩ := ih ha
      exact ⟨b, List.mem_cons_of_mem _ hb, hab⟩

theorem exists_of_mapM_eq_ok {a : α} (h : as.mapM f = .ok bs) (ha : a ∈ as) :
    ∃ b ∈ bs, f a = .ok b :=
  exists_right_of_forall₂ (mapM_eq_ok_iff.1 h) ha

/-- A list of results fails where an item fails. -/
theorem exists_of_mapM_eq_error (h : as.mapM f = .error e) : ∃ a ∈ as, f a = .error e := by
  induction as with
  | nil => cases h
  | cons a as ih =>
    rw [List.mapM_cons] at h
    cases ha : f a with
    | error d =>
      rw [ha] at h
      cases h
      exact ⟨a, List.mem_cons_self, ha⟩
    | ok b =>
      cases hrest : as.mapM f with
      | error d =>
        rw [ha, hrest] at h
        cases h
        obtain ⟨a', ha', hd⟩ := ih hrest
        exact ⟨a', List.mem_cons_of_mem a ha', hd⟩
      | ok rest =>
        rw [ha, hrest] at h
        cases h

/-- A run that takes in results one by one takes in all of them, if they are there. -/
theorem foldlM_map_eq (take : σ → β → σ) :
    as.foldlM (fun s a => (f a).map (take s)) s = (as.mapM f).map (·.foldl take s) := by
  induction as generalizing s with
  | nil => rfl
  | cons a as ih =>
    rw [List.foldlM_cons, List.mapM_cons]
    cases f a with
    | error e => rfl
    | ok b =>
      show as.foldlM (fun s a => (f a).map (take s)) (take s b) = _
      rw [ih]
      cases as.mapM f <;> rfl

end Plotter
