import Mathlib.Data.List.Basic
import Plotter.Expression.Exchange
import Plotter.Json.Reader

/-!
# Names of members

The type of JSON values does not keep an object from having several members of one name, of which a
look-up finds the first. There is never more than one in what is read from a text, where a later
member takes the place of an earlier one, nor in the record of an expression. So the order of the
members makes no difference to a look-up.
-/

namespace Plotter

namespace Json

/-- In no object of the value do two members have the same name. -/
inductive HasDistinctNames : Json → Prop
  | null : HasDistinctNames .null
  | bool {b : Bool} : HasDistinctNames (.bool b)
  | int {i : Int} : HasDistinctNames (.int i)
  | real {x : Float} : HasDistinctNames (.real x)
  | string {s : String} : HasDistinctNames (.string s)
  | array {items : List Json} : (∀ j ∈ items, HasDistinctNames j) →
      HasDistinctNames (.array items)
  | object {ms : List (String × Json)} : (ms.map Prod.fst).Nodup →
      (∀ m ∈ ms, HasDistinctNames m.2) → HasDistinctNames (.object ms)

variable {ms : List (String × Json)} {m : String × Json} {name : String} {value j : Json}
  {cs rest lexeme : List Char} {fuel : Nat} {s : String}

/-! ## Setting a member -/

theorem lookup_cons_eq (m : String × Json) (ms : List (String × Json)) (name : String) :
    (m :: ms).lookup name = if name = m.1 then some m.2 else ms.lookup name := by
  rw [List.lookup_cons]
  split <;> simp_all

/-- The names stay in their order, and a new one comes last. -/
theorem map_fst_setMember (ms : List (String × Json)) (name : String) (value : Json) :
    (setMember ms name value).map Prod.fst =
      if name ∈ ms.map Prod.fst then ms.map Prod.fst else ms.map Prod.fst ++ [name] := by
  induction ms with
  | nil => rfl
  | cons m ms ih =>
    rw [setMember]
    split
    · rename_i heq
      simp [heq]
    · rename_i hne
      simp only [List.map_cons, ih, List.mem_cons, Ne.symm hne, false_or]
      split <;> rfl

/-- The member that is set gets the value, and the others keep theirs. -/
theorem lookup_setMember (ms : List (String × Json)) (name other : String) (value : Json) :
    (setMember ms name value).lookup other =
      if other = name then some value else ms.lookup other := by
  induction ms with
  | nil => exact lookup_cons_eq (name, value) [] other
  | cons m ms ih =>
    rw [setMember]
    split
    · rename_i heq
      rw [lookup_cons_eq, lookup_cons_eq, heq]
      split <;> rfl
    · rename_i hne
      rw [lookup_cons_eq, lookup_cons_eq, ih]
      split
      · rename_i heq
        rw [if_neg (heq.trans_ne hne)]
      · rfl

theorem mem_setMember (h : m ∈ setMember ms name value) : m = (name, value) ∨ m ∈ ms := by
  induction ms with
  | nil => exact .inl (List.mem_singleton.1 h)
  | cons n ms ih =>
    rw [setMember] at h
    split at h
    · rename_i heq
      exact (List.mem_cons.1 h).imp (fun hm => by rw [hm, heq]) (List.mem_cons_of_mem _)
    · rcases List.mem_cons.1 h with rfl | h
      · exact .inr List.mem_cons_self
      · exact (ih h).imp_right (List.mem_cons_of_mem _)

/-- Setting a member gives no name twice. -/
theorem nodup_setMember (h : (ms.map Prod.fst).Nodup) :
    ((setMember ms name value).map Prod.fst).Nodup := by
  rw [map_fst_setMember]
  split
  · exact h
  · rename_i hnew
    exact List.nodup_append.2 ⟨h, by simp, fun a ha b hb => by
      rw [List.mem_singleton.1 hb]
      exact fun heq => hnew (heq ▸ ha)⟩

/-- If the names differ, a look-up finds whatever is there. -/
theorem lookup_eq_some_iff (h : (ms.map Prod.fst).Nodup) :
    ms.lookup name = some value ↔ (name, value) ∈ ms := by
  induction ms with
  | nil => simp
  | cons m ms ih =>
    obtain ⟨hnew, hrest⟩ := List.nodup_cons.1 h
    rw [lookup_cons_eq, List.mem_cons, ← ih hrest]
    split
    · rename_i heq
      have hnone : ms.lookup name ≠ some value := fun hsome =>
        hnew (List.mem_map.2 ⟨(name, value), (ih hrest).1 hsome, heq⟩)
      rw [or_iff_left hnone, Option.some_inj, heq, Prod.ext_iff, and_iff_right rfl, eq_comm]
    · rename_i hne
      rw [or_iff_right fun heq => hne (congrArg Prod.fst heq)]

/-! ## Reading -/

namespace Reader

theorem hasDistinctNames_of_number? (h : number? lexeme = some j) : j.HasDistinctNames := by
  rw [number?.eq_def] at h
  split at h
  all_goals
    dsimp only at h
    split at h
    · cases h
      exact .int
    · obtain ⟨n, -, rfl⟩ := Option.map_eq_some_iff.1 h
      exact .real

theorem hasDistinctNames_of_words {w : List Char × Json} (h : w ∈ words) :
    w.2.HasDistinctNames := by
  simp only [words, List.mem_cons, List.not_mem_nil, or_false] at h
  rcases h with rfl | rfl | rfl | rfl | rfl | rfl
  · exact .null
  · exact .bool
  · exact .bool
  · exact .real
  · exact .real
  · exact .real

theorem hasDistinctNames_of_scalar? (h : scalar? cs = some (j, rest)) : j.HasDistinctNames := by
  rw [scalar?] at h
  split at h
  · rename_i word value hfind
    cases h
    exact hasDistinctNames_of_words (List.mem_of_find?_eq_some hfind)
  · obtain ⟨value, hnumber, heq⟩ := Option.map_eq_some_iff.1 h
    cases heq
    exact hasDistinctNames_of_number? hnumber

/-- With this much fuel, a value with distinct names is read, from parts that have such names. -/
structure ReadsDistinctNames (fuel : Nat) : Prop where
  value {cs rest : List Char} {j : Json} : value? fuel cs = some (j, rest) → j.HasDistinctNames
  items {soFar : List Json} {cs rest : List Char} {j : Json} :
    items? fuel soFar cs = some (j, rest) → (∀ i ∈ soFar, i.HasDistinctNames) → j.HasDistinctNames
  members {soFar : List (String × Json)} {cs rest : List Char} {j : Json} :
    members? fuel soFar cs = some (j, rest) → (soFar.map Prod.fst).Nodup →
      (∀ m ∈ soFar, m.2.HasDistinctNames) → j.HasDistinctNames

/-- One more level of values keeps the names distinct. -/
theorem ReadsDistinctNames.value_succ (ih : ReadsDistinctNames fuel)
    (h : value? (fuel + 1) cs = some (j, rest)) : j.HasDistinctNames := by
  rw [value?] at h
  split at h
  · obtain ⟨⟨s, rest'⟩, -, heq⟩ := Option.map_eq_some_iff.1 h
    cases heq
    exact .string
  · split at h
    · cases h
      exact .array (by simp)
    · exact ih.items h (by simp)
  · split at h
    · cases h
      exact .object List.nodup_nil (by simp)
    · exact ih.members h List.nodup_nil (by simp)
  · exact hasDistinctNames_of_scalar? h

theorem ReadsDistinctNames.items_succ {soFar : List Json} (ih : ReadsDistinctNames fuel)
    (h : items? (fuel + 1) soFar cs = some (j, rest))
    (hsoFar : ∀ i ∈ soFar, i.HasDistinctNames) : j.HasDistinctNames := by
  rw [items?] at h
  split at h
  · cases h
  · rename_i item rest' hvalue
    have hitems : ∀ i ∈ item :: soFar, i.HasDistinctNames :=
      List.forall_mem_cons.2 ⟨ih.value hvalue, hsoFar⟩
    split at h
    · exact ih.items h hitems
    · cases h
      exact .array fun i hi => hitems i (List.mem_reverse.1 hi)
    · cases h

/-- The members of an object that is read have distinct names, as their values do. -/
theorem ReadsDistinctNames.members_succ {soFar : List (String × Json)}
    (ih : ReadsDistinctNames fuel) (h : members? (fuel + 1) soFar cs = some (j, rest))
    (hnames : (soFar.map Prod.fst).Nodup)
    (hsoFar : ∀ m ∈ soFar, m.2.HasDistinctNames) : j.HasDistinctNames := by
  rw [members?] at h
  split at h
  · split at h
    · cases h
    · rename_i name rest' htext
      split at h
      · split at h
        · cases h
        · rename_i value rest'' hvalue
          have hmembers : ∀ m ∈ setMember soFar name value, m.2.HasDistinctNames := by
            intro m hm
            rcases mem_setMember hm with rfl | hm
            · exact ih.value hvalue
            · exact hsoFar m hm
          dsimp only at h
          split at h
          · exact ih.members h (nodup_setMember hnames) hmembers
          · cases h
            exact .object (nodup_setMember hnames) hmembers
          · cases h
      · cases h
  · cases h

/-- The reader gives distinct names at any depth. -/
theorem readsDistinctNames (fuel : Nat) : ReadsDistinctNames fuel := by
  induction fuel with
  | zero => exact ⟨nofun, nofun, nofun⟩
  | succ fuel ih => exact ⟨ih.value_succ, ih.items_succ, ih.members_succ⟩

end Reader

/-- What is read from a text gives no name twice. -/
theorem hasDistinctNames_of_ofText? (h : ofText? s = some j) : j.HasDistinctNames := by
  simp only [ofText?] at h
  split at h
  · rename_i value rest hvalue
    split at h
    · cases h
      exact (Reader.readsDistinctNames _).value hvalue
    · cases h
  · cases h

/-- Of a value that is read, the member of a name is whatever stands there under that name. -/
theorem HasDistinctNames.member?_eq_some_iff (h : j.HasDistinctNames) :
    j.member? name = some value ↔ (name, value) ∈ j.members := by
  cases h with
  | object hnames hmembers => exact lookup_eq_some_iff hnames
  | null | bool | int | real | string | array => exact iff_of_false nofun (List.not_mem_nil)

/-! ## Records -/

theorem hasDistinctNames_pair {a b : String} {v w : Json} (hab : a ≠ b) (hv : v.HasDistinctNames)
    (hw : w.HasDistinctNames) : (object [(a, v), (b, w)]).HasDistinctNames :=
  .object (by simp [hab]) (by simp [hv, hw])

end Json

theorem Token.hasDistinctNames_toJson (t : Token) : t.toJson.HasDistinctNames := by
  cases t with
  | number x => exact Json.hasDistinctNames_pair (by decide) .string .real
  | var name => exact Json.hasDistinctNames_pair (by decide) .string .string
  | function name => exact Json.hasDistinctNames_pair (by decide) .string .string
  | operator symbol => exact Json.hasDistinctNames_pair (by decide) .string .string
  | leftParen => exact .object (by simp) (by simp [Json.HasDistinctNames.string])
  | rightParen => exact .object (by simp) (by simp [Json.HasDistinctNames.string])

/-- The record of an expression gives no name twice. -/
theorem Expression.hasDistinctNames_toJson (e : Expression) : e.toJson.HasDistinctNames := by
  refine Json.hasDistinctNames_pair (by decide) .string (.array fun j hj => ?_)
  obtain ⟨t, -, rfl⟩ := List.mem_map.1 hj
  exact t.hasDistinctNames_toJson

end Plotter
