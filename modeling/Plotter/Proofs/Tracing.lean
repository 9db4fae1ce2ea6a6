import Mathlib.Data.List.Induction
import Plotter.Proofs.Run
import Plotter.Sampling.Curve

/-!
# Curves drawn from left to right

A curve can be drawn in one pass over its grid that keeps the finished segments, the one that is
still open, and the number of points left out. The pass ends at the first point where the expression
has no value. What it keeps divides the points so far into segments and gaps that take turns.
-/

namespace Plotter

namespace Curve

/-- What a pass keeps of the points so far. -/
structure Pass where
  /-- The finished segments. -/
  closed : List (List Point) := []
  /-- The segment that is still open. -/
  current : List Point := []
  /-- The number of points that are not visible. -/
  skipped : Nat := 0

namespace Pass

/-- The segments, if no further point comes. -/
def close (s : Pass) : List (List Point) :=
  if s.current = [] then s.closed else s.closed ++ [s.current]

/-- Takes in a point. One that is not visible ends the open segment. -/
def take (s : Pass) (p : Point) : Pass :=
  if p.isVisible then { s with current := s.current ++ [p] }
  else { closed := s.close, current := [], skipped := s.skipped + 1 }

end Pass

/-- The segment is a maximal run of visible points, with the given points on either side. -/
structure IsBlock (ps left segment right : List Point) : Prop where
  split : ps = left ++ segment ++ right
  nonempty : segment ≠ []
  visible : ∀ p ∈ segment, p.isVisible = true
  left_ends : ∀ p ∈ left.getLast?, p.isVisible = false
  right_begins : ∀ p ∈ right.head?, p.isVisible = false

/-- The points are gaps and the given segments in turn. -/
inductive Divides : List Point → List (List Point) → Prop where
  /-- There is a gap and nothing else. -/
  | gap {gap : List Point} : (∀ p ∈ gap, p.isVisible = false) → Divides gap []
  /-- After a gap, or at the very beginning, one more segment and a gap. -/
  | segment {ps segment gap : List Point} {segments : List (List Point)} : Divides ps segments →
      (∀ p ∈ ps.getLast?, p.isVisible = false) → segment ≠ [] → (∀ p ∈ segment, p.isVisible = true) →
      (∀ p ∈ gap, p.isVisible = false) → Divides (ps ++ segment ++ gap) (segments ++ [segment])

end Curve

/-- The points are those of the graph at the given places. -/
def Expression.IsGraph (e : Expression) (xs : List Float) (ps : List Point) : Prop :=
  List.Forall₂ (fun x p => p.x = x ∧ e.evaluateAt x = .ok p.y) xs ps

/-- Takes in the point of the graph at the next place of the grid. -/
def Expression.trace (e : Expression) (s : Curve.Pass) (x : Float) : Except EvalError Curve.Pass :=
  (e.pointAt x).map s.take

variable {ps left segment right : List Point} {before segments after : List (List Point)}
  {p : Point} {s : Curve.Pass} {e : Expression} {g : Grid}

/-! ## The curve of a pass -/

namespace Curve

theorem consSegment_eq (segment : List Point) (segments : List (List Point)) :
    consSegment segment segments = (if segment = [] then [] else [segment]) ++ segments := by
  cases segment <;> rfl

/-- What a pass finds from some state on goes on with the open segment. -/
theorem close_foldl_take (s : Pass) (ps : List Point) :
    (ps.foldl Pass.take s).close = s.closed ++
      consSegment (s.current ++ (ps.foldr addPoint ([], [])).1) (ps.foldr addPoint ([], [])).2 := by
  induction ps generalizing s with
  | nil =>
    rw [List.foldl_nil, List.foldr_nil, consSegment_eq, Pass.close]
    split_ifs <;> simp_all
  | cons p ps ih =>
    rw [List.foldl_cons, List.foldr_cons, ih, addPoint, Pass.take]
    split_ifs with hp
    · simp
    · rw [List.append_nil, consSegment_eq s.current, Pass.close]
      split_ifs <;> simp

theorem skipped_foldl_take (s : Pass) (ps : List Point) :
    (ps.foldl Pass.take s).skipped = s.skipped + ps.countP (!·.isVisible) := by
  induction ps generalizing s with
  | nil => rfl
  | cons p ps ih =>
    rw [List.foldl_cons, ih, List.countP_cons, Pass.take]
    split_ifs with hp hcount hcount
    · simp [hp] at hcount
    · rfl
    · show s.skipped + 1 + _ = _
      omega
    · simp [hp] at hcount

/-- The curve through some points is that of a pass over them. -/
theorem ofPoints_eq (ps : List Point) :
    ofPoints ps =
      { segments := (ps.foldl Pass.take {}).close
        total := ps.length
        skipped := (ps.foldl Pass.take {}).skipped } := by
  rw [ofPoints, close_foldl_take, skipped_foldl_take, segmentsOf]
  simp

end Curve

/-- The curve of an expression comes from a pass over the grid, which stops at the first point without
a value. -/
theorem sample_eq_trace (e : Expression) (g : Grid) :
    e.sample g =
      match g.points.foldlM e.trace {} with
      | .ok s => ({ segments := s.close, total := g.points.length, skipped := s.skipped }, [])
      | .error error => (.failed g.points.length error, [e.failureRecord error]) := by
  have hrun : g.points.foldlM e.trace {} = (g.points.mapM e.pointAt).map (·.foldl Curve.Pass.take {}) :=
    foldlM_map_eq Curve.Pass.take
  rw [Expression.sample, hrun]
  cases hpoints : g.points.mapM e.pointAt with
  | error error => rfl
  | ok ps =>
    have hlength : g.points.length = ps.length := (mapM_eq_ok_iff.1 hpoints).length_eq
    show (Curve.ofPoints ps, []) = _
    rw [Curve.ofPoints_eq, hlength]
    rfl

/-! ## Segments and gaps -/

namespace Curve

theorem IsBlock.right_ne_nil (h : IsBlock ps left segment right)
    (hlast : ∀ p ∈ ps.getLast?, p.isVisible = false) : right ≠ [] := by
  rintro rfl
  obtain ⟨init, p, hconcat⟩ := (List.eq_nil_or_concat segment).resolve_left h.nonempty
  have hp : p.isVisible = true := h.visible p (by simp [hconcat])
  have hps : ps.getLast? = some p := by simp [h.split, hconcat]
  rw [hlast p hps] at hp
  cases hp

theorem IsBlock.append (h : IsBlock ps left segment right) (hright : right ≠ []) (qs : List Point) :
    IsBlock (ps ++ qs) left segment (right ++ qs) where
  split := by rw [h.split, List.append_assoc _ right]
  nonempty := h.nonempty
  visible := h.visible
  left_ends := h.left_ends
  right_begins := by
    rw [List.head?_append_of_ne_nil _ hright]
    exact h.right_begins

/-- A point that is not visible lengthens the last gap. -/
theorem Divides.concat (h : Divides ps segments) (hp : p.isVisible = false) :
    Divides (ps ++ [p]) segments := by
  cases h with
  | gap hgap => exact .gap (List.forall_mem_append.2 ⟨hgap, List.forall_mem_singleton.2 hp⟩)
  | segment hps hlast hne hvisible hgap =>
    rw [List.append_assoc]
    exact .segment hps hlast hne hvisible
      (List.forall_mem_append.2 ⟨hgap, List.forall_mem_singleton.2 hp⟩)

/-- The segments hold the visible points in order. -/
theorem Divides.flatten_eq (h : Divides ps segments) :
    segments.flatten = ps.filter Point.isVisible := by
  induction h with
  | gap hgap => simpa using (List.filter_eq_nil_iff.2 (by simpa using hgap)).symm
  | segment _ _ _ hvisible hgap ih =>
    rw [List.flatten_concat, List.filter_append, List.filter_append, ← ih,
      List.filter_eq_self.2 hvisible, List.filter_eq_nil_iff.2 (by simpa using hgap),
      List.append_nil]

/-- Every segment is a block, and what is visible on either side of it are the other segments. -/
theorem Divides.exists_isBlock (h : Divides ps segments)
    (hsegments : segments = before ++ segment :: after) :
    ∃ left right, IsBlock ps left segment right ∧
      left.filter Point.isVisible = before.flatten ∧
      right.filter Point.isVisible = after.flatten := by
  induction h generalizing after with
  | gap _ => simp at hsegments
  | @segment ps last gap segments hps hlast hne hvisible hgap ih =>
    have hgap' : gap.filter Point.isVisible = [] := List.filter_eq_nil_iff.2 (by simpa using hgap)
    -- Either the last segment is the one in question, or it adds to what is to the right of that one.
    rcases List.eq_nil_or_concat after with rfl | ⟨after, final, rfl⟩
    · obtain ⟨rfl, heq⟩ := List.append_inj' hsegments rfl
      cases heq
      exact ⟨ps, gap, ⟨rfl, hne, hvisible, hlast, fun p hp => hgap p (List.mem_of_mem_head? hp)⟩,
        hps.flatten_eq.symm, hgap'⟩
    · obtain ⟨hbefore, hfinal⟩ : segments = before ++ segment :: after ∧ [last] = [final] :=
        List.append_inj' (by simpa using hsegments) rfl
      cases hfinal
      obtain ⟨left, right, hblock, hleft, hright⟩ := ih hbefore
      refine ⟨left, right ++ (last ++ gap), ?_, hleft, ?_⟩
      · rw [List.append_assoc]
        exact hblock.append (hblock.right_ne_nil hlast) _
      · rw [List.filter_append, List.filter_append, hright, hgap', List.filter_eq_self.2 hvisible,
          List.concat_eq_append, List.flatten_concat, List.append_nil]

/-- Between two segments that follow one another there is a gap, and only that. -/
theorem Divides.exists_gap {segment' : List Point} (h : Divides ps segments)
    (hsegments : segments = before ++ segment :: segment' :: after) :
    ∃ left gap right, ps = left ++ segment ++ gap ++ segment' ++ right ∧ gap ≠ [] ∧
      ∀ p ∈ gap, p.isVisible = false := by
  induction h generalizing after with
  | gap _ => simp at hsegments
  | @segment ps last gap segments hps hlast hne hvisible hgap ih =>
    rcases List.eq_nil_or_concat after with rfl | ⟨after, final, rfl⟩
    · obtain ⟨hbefore, heq⟩ : segments = before ++ [segment] ∧ [last] = [segment'] :=
        List.append_inj' (by simpa using hsegments) rfl
      cases heq
      obtain ⟨left, between, hblock, -, hbetween⟩ := hps.exists_isBlock hbefore
      refine ⟨left, between, gap, by rw [hblock.split], hblock.right_ne_nil hlast, ?_⟩
      simpa using List.filter_eq_nil_iff.1 hbetween
    · obtain ⟨hbefore, hfinal⟩ : segments = before ++ segment :: segment' :: after ∧
          [last] = [final] := List.append_inj' (by simpa using hsegments) rfl
      obtain ⟨left, between, right, rfl, hbetween, hinvisible⟩ := ih hbefore
      exact ⟨left, between, right ++ (last ++ gap), by simp, hbetween, hinvisible⟩

/-! ## The invariant of a pass -/

/-- What a pass keeps tells what the points so far look like: those before the open segment are
divided into gaps and the finished segments, and they do not end with a visible one. -/
structure Pass.Follows (s : Pass) (ps : List Point) : Prop where
  visible : ∀ p ∈ s.current, p.isVisible = true
  divided : ∃ qs, ps = qs ++ s.current ∧ Divides qs s.closed ∧
    ∀ p ∈ qs.getLast?, p.isVisible = false

/-- Closing a pass leaves the points divided into the segments it gives. -/
theorem Pass.Follows.divides_close (h : s.Follows ps) : Divides ps s.close := by
  obtain ⟨qs, rfl, hqs, hlast⟩ := h.divided
  rw [close]
  split_ifs with hcurrent
  · rwa [hcurrent, List.append_nil]
  · rw [← List.append_nil (qs ++ s.current)]
    exact .segment hqs hlast hcurrent h.visible (by simp)

theorem Pass.Follows.take (h : s.Follows ps) (p : Point) : (s.take p).Follows (ps ++ [p]) := by
  rw [Pass.take]
  split_ifs with hp
  · obtain ⟨qs, rfl, hqs, hlast⟩ := h.divided
    exact ⟨List.forall_mem_append.2 ⟨h.visible, List.forall_mem_singleton.2 hp⟩,
      qs, List.append_assoc .., hqs, hlast⟩
  · have hp : p.isVisible = false := by simpa using hp
    -- The open segment is finished, and the point is the gap after it.
    refine ⟨by simp, ps ++ [p], (List.append_nil _).symm, h.divides_close.concat hp, ?_⟩
    simp [hp]

theorem Pass.follows_foldl (ps : List Point) : (ps.foldl Pass.take {}).Follows ps := by
  induction ps using List.reverseRecOn with
  | nil => exact ⟨by simp, [], rfl, .gap (by simp), by simp⟩
  | append_singleton ps p ih =>
    rw [List.foldl_concat]
    exact ih.take p

theorem divides_segmentsOf (ps : List Point) : Divides ps (segmentsOf ps) := by
  have hsegments : segmentsOf ps = (ps.foldl Pass.take {}).close :=
    congrArg Curve.segments (ofPoints_eq ps)
  rw [hsegments]
  exact (Pass.follows_foldl ps).divides_close

theorem Divides.eq_nil_iff (h : Divides ps segments) :
    segments = [] ↔ ps.filter Point.isVisible = [] := by
  rw [← h.flatten_eq]
  constructor
  · rintro rfl
    rfl
  · intro hflatten
    cases hsegments : segments with
    | nil => rfl
    | cons segment after =>
      obtain ⟨left, right, hblock, -⟩ :=
        h.exists_isBlock (show segments = [] ++ segment :: after from hsegments)
      have hnil : segment = [] := List.flatten_eq_nil_iff.1 hflatten segment (by simp [hsegments])
      exact absurd hnil hblock.nonempty

theorem points_ofPoints (ps : List Point) : (ofPoints ps).points = ps.filter Point.isVisible :=
  (divides_segmentsOf ps).flatten_eq

/-- Every point is either in a segment or counted as left out. -/
theorem length_points_ofPoints (ps : List Point) :
    (ofPoints ps).points.length + (ofPoints ps).skipped = (ofPoints ps).total := by
  rw [points_ofPoints, ← List.countP_eq_length_filter]
  have hcount : ps.length = ps.countP Point.isVisible + ps.countP (!·.isVisible) := by
    simpa using List.length_eq_countP_add_countP (l := ps) Point.isVisible
  exact hcount.symm

theorem isEmpty_ofPoints_iff (ps : List Point) :
    (ofPoints ps).isEmpty = true ↔ (ofPoints ps).skipped = (ofPoints ps).total := by
  have hlength := length_points_ofPoints ps
  rw [points_ofPoints] at hlength
  rw [isEmpty, List.isEmpty_iff]
  refine (divides_segmentsOf ps).eq_nil_iff.trans ?_
  rw [← List.length_eq_zero_iff]
  omega

end Curve

/-! ## The points of the grid -/

theorem Grid.length_points (g : Grid) : g.points.length = g.samples := by
  have htwo := g.two_le_samples
  simp only [points, List.length_append, List.length_map, List.length_range, List.length_singleton]
  omega

namespace Expression

theorem pointAt_eq_ok_iff {x : Float} :
    e.pointAt x = .ok p ↔ p.x = x ∧ e.evaluateAt x = .ok p.y := by
  rw [pointAt]
  cases e.evaluateAt x with
  | error error => simp [Except.map]
  | ok y =>
    obtain ⟨px, py⟩ := p
    simp [Except.map, eq_comm]

theorem pointAt_eq_error_iff {x : Float} {error : EvalError} :
    e.pointAt x = .error error ↔ e.evaluateAt x = .error error := by
  rw [pointAt]
  cases e.evaluateAt x <;> simp [Except.map]

end Expression

/-- A curve of which every point has a value loses none of those that can be drawn, and adds none: its
segments are the maximal blocks of them, in their order. The others are counted. An expression that
has no value somewhere has no curve at all. -/
theorem sample_segments {c : Curve} {records : List LogRecord} (h : e.sample g = (c, records)) :
    ((∀ x ∈ g.points, ∃ y, e.evaluateAt x = .ok y) →
      ∃ ps, e.IsGraph g.points ps ∧ c.points = ps.filter Point.isVisible ∧
        (∀ before segment after, c.segments = before ++ segment :: after →
          ∃ left right, Curve.IsBlock ps left segment right ∧
            left.filter Point.isVisible = before.flatten ∧
            right.filter Point.isVisible = after.flatten) ∧
        (∀ before segment segment' after, c.segments = before ++ segment :: segment' :: after →
          ∃ left gap right, ps = left ++ segment ++ gap ++ segment' ++ right ∧ gap ≠ [] ∧
            ∀ p ∈ gap, p.isVisible = false) ∧
        c.skipped = ps.countP (!·.isVisible) ∧
        c.points.length + c.skipped = c.total ∧ (c.isEmpty = true ↔ c.skipped = c.total)) ∧
    ((∃ x ∈ g.points, ∃ error, e.evaluateAt x = .error error) →
      c.segments = [] ∧ c.skipped = c.total) ∧
    c.total = g.samples := by
  rw [Expression.sample] at h
  cases hpoints : g.points.mapM e.pointAt with
  | error error =>
    rw [hpoints] at h
    cases h
    obtain ⟨x, hx, herror⟩ := exists_of_mapM_eq_error hpoints
    refine ⟨fun hvalues => ?_, fun _ => ⟨rfl, rfl⟩, g.length_points⟩
    obtain ⟨y, hy⟩ := hvalues x hx
    rw [Expression.pointAt_eq_error_iff.1 herror] at hy
    cases hy
  | ok ps =>
    rw [hpoints] at h
    cases h
    have hgraph := mapM_eq_ok_iff.1 hpoints
    have hdivides := Curve.divides_segmentsOf ps
    refine ⟨fun _ => ⟨ps, hgraph.imp fun _ _ => Expression.pointAt_eq_ok_iff.1, Curve.points_ofPoints ps,
      fun _ _ _ => hdivides.exists_isBlock, fun _ _ _ _ => hdivides.exists_gap, rfl,
      Curve.length_points_ofPoints ps, Curve.isEmpty_ofPoints_iff ps⟩, ?_, ?_⟩
    · rintro ⟨x, hx, error, herror⟩
      obtain ⟨p, -, hp⟩ := exists_of_mapM_eq_ok hpoints hx
      rw [(Expression.pointAt_eq_ok_iff.1 hp).2] at herror
      cases herror
    · rw [← g.length_points]
      exact hgraph.length_eq.symm

/-- The integers from `-1` to `1`. -/
def Grid.aroundZero : Grid where
  xMin := -1
  xMax := 1
  samples := 3
  xMin_finite := by decide +kernel
  xMax_finite := by decide +kernel
  xMin_lt_xMax := by decide +kernel
  width_finite := by decide +kernel
  two_le_samples := by decide
  samples_le := by decide

/-- A curve with a pole at zero. -/
def hyperbola : Expression := ⟨"1/x", [.number 1, .var "x", .operator "/"]⟩

/-- The two branches of a hyperbola are drawn apart. -/
theorem sample_segments_hyperbola :
    ∃ c records, hyperbola.sample Grid.aroundZero = (c, records) ∧
      c.segments = [[⟨-1, -1⟩], [⟨1, 1⟩]] ∧ c.points.length + c.skipped = c.total ∧
      ∃ left gap right, gap ≠ [] ∧
        hyperbola.IsGraph Grid.aroundZero.points (left ++ [⟨-1, -1⟩] ++ gap ++ [⟨1, 1⟩] ++ right) := by
  have hsample : hyperbola.sample Grid.aroundZero = (_, _) := (Prod.eta _).symm
  have hsegments : (hyperbola.sample Grid.aroundZero).1.segments = [[⟨-1, -1⟩], [⟨1, 1⟩]] := by
    decide +kernel
  obtain ⟨ps, hgraph, -, -, hgap, -, hlength, -⟩ :=
    (sample_segments hsample).1 fun x _ => ⟨Total.divide 1 x, rfl⟩
  obtain ⟨left, gap, right, rfl, hne, -⟩ := hgap [] _ _ [] hsegments
  exact ⟨_, _, hsample, hsegments, hlength, left, gap, right, hne, hgraph⟩

end Plotter
