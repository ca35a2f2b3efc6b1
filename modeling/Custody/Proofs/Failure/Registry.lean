import Custody.Failure.Registry
import Mathlib.Data.List.Nodup

/-!
# The ids of conditions

Ids count down in the order of registration, whatever is registered.  So the ids that are not
negative belong to the host's own conditions for ever, and which condition has the id of success is
settled once and for all.

- `Registry.Reachable.numbered`: ids count down, and no name is registered twice.
- `Failure.id_eq_successId_iff`: the only name with the id of success is that of the host's
  condition.
- `Failure.id_neg`: a failure that the library raises by itself has a negative id.
-/

namespace Custody

namespace Registry

/-! ## The order of registration -/

/-- The registries that arise by registering. -/
inductive Reachable : Registry → Prop where
  | fresh : Reachable fresh
  | register {r : Registry} (before : Reachable r) (name message : String) :
    Reachable (r.register name message).2

/-- The names in the order of registration. -/
def names (r : Registry) : List String := r.conditions.map (·.name)

/-- Ids count down from the first, and no name has two of them. -/
structure Numbered (r : Registry) : Prop where
  id : ∀ (place : Nat) (condition : Condition), r.conditions[place]? = some condition →
    condition.id = 7 - (place : Int)
  next : r.nextId = 7 - (r.conditions.length : Int)
  nodup : r.names.Nodup

theorem numbered_empty : empty.Numbered where
  id place condition h := by simp [empty] at h
  next := rfl
  nodup := List.nodup_nil

theorem names_append (r : Registry) (name message : String) :
    (r.append name message).names = r.names ++ [name] := by
  simp [names, append]

/-- Conditions that are added one by one stand behind those that are there, in their order. -/
theorem names_foldl (conditions : List (String × String)) (r : Registry) :
    (conditions.foldl (fun r condition => r.append condition.1 condition.2) r).names =
      r.names ++ conditions.map (·.1) := by
  induction conditions generalizing r with
  | nil => rw [List.foldl_nil, List.map_nil, List.append_nil]
  | cons condition rest ih =>
    rw [List.foldl_cons, ih, names_append, List.append_assoc, List.map_cons, List.singleton_append]

theorem names_fresh : fresh.names = builtin.map (·.1) := names_foldl builtin empty

/-- A new name gets the next id. -/
theorem Numbered.append {r : Registry} (h : r.Numbered) {name : String} (hnew : name ∉ r.names)
    (message : String) : (r.append name message).Numbered where
  id place condition hplace := by
    rw [Registry.append, List.getElem?_append] at hplace
    split at hplace
    case isTrue => exact h.id place condition hplace
    case isFalse hlast =>
      rw [List.getElem?_singleton] at hplace
      split at hplace
      case isTrue hzero =>
        obtain rfl := Option.some.inj hplace
        show r.nextId = 7 - (place : Int)
        rw [h.next]
        omega
      case isFalse => cases hplace
  next := by
    simp only [Registry.append, h.next, List.length_append, List.length_singleton]
    omega
  nodup := by
    rw [names_append, ← List.concat_eq_append]
    exact (List.nodup_concat r.names name).mpr ⟨hnew, h.nodup⟩

/-- Adding conditions with different names that are all new. -/
private theorem Numbered.foldl {conditions : List (String × String)} {r : Registry}
    (h : r.Numbered) (hnames : (r.names ++ conditions.map (·.1)).Nodup) :
    (conditions.foldl (fun r condition => r.append condition.1 condition.2) r).Numbered := by
  induction conditions generalizing r with
  | nil => exact h
  | cons condition rest ih =>
    -- the first is new by assumption, and so are the others once it is among the names
    have hnew : condition.1 ∉ r.names := fun hmem =>
      (List.disjoint_of_nodup_append hnames) hmem (by simp)
    apply ih (h.append hnew condition.2)
    rw [names_append, List.append_assoc]
    exact hnames

theorem numbered_fresh : fresh.Numbered :=
  numbered_empty.foldl (by
    show (builtin.map (·.1)).Nodup
    decide)

/-! ## Registering -/

theorem byName?_eq_none_iff {r : Registry} {name : String} :
    r.byName? name = none ↔ name ∉ r.names := by
  simp [byName?, names]

/-- Registering changes nothing, or adds a condition whose name is new. -/
theorem register_snd (r : Registry) (name message : String) :
    (r.register name message).2 = r ∨
      name ∉ r.names ∧ (r.register name message).2 = r.append name message := by
  rw [register]
  cases hfound : r.byName? name with
  | none => exact .inr ⟨byName?_eq_none_iff.mp hfound, rfl⟩
  | some condition =>
    left
    by_cases hmessage : condition.message = message
    · simp [hmessage]
    · simp [hmessage]

theorem Reachable.numbered {r : Registry} (h : r.Reachable) : r.Numbered := by
  induction h with
  | fresh => exact numbered_fresh
  | register _ name message ih =>
    rcases register_snd _ name message with hsame | ⟨hnew, happend⟩
    · rwa [hsame]
    · rw [happend]
      exact ih.append hnew message

/-- What every registry starts with stays at its place. -/
theorem Reachable.builtin_isPrefix {r : Registry} (h : r.Reachable) :
    builtin.map (·.1) <+: r.names := by
  induction h with
  | fresh => exact names_fresh ▸ List.prefix_rfl
  | register _ name message ih =>
    rcases register_snd _ name message with hsame | ⟨hnew, happend⟩
    · rwa [hsame]
    · rw [happend, names_append]
      exact ih.trans (List.prefix_append _ _)

/-! ## The id of a name -/

/-- A name that is registered has the id of its place. -/
theorem Numbered.byName?_id {r : Registry} (h : r.Numbered) {name : String} {place : Nat}
    (hplace : r.names[place]? = some name) :
    ∃ condition, r.byName? name = some condition ∧ condition.id = 7 - (place : Int) := by
  have hmem : name ∈ r.names := List.mem_of_getElem? hplace
  obtain ⟨condition, hfound⟩ : ∃ condition, r.byName? name = some condition :=
    Option.ne_none_iff_exists'.mp fun hnone => byName?_eq_none_iff.mp hnone hmem
  refine ⟨condition, hfound, ?_⟩
  have hname : condition.name = name := by simpa using List.find?_some hfound
  obtain ⟨found, hcondition⟩ := List.mem_iff_getElem?.mp (List.mem_of_find?_eq_some hfound)
  have hfoundName : r.names[found]? = some name := by simp [names, hcondition, hname]
  -- names differ, so the place where the name was found is the only one
  obtain rfl : found = place :=
    (List.getElem?_inj (List.getElem?_eq_some_iff.mp hfoundName).1 h.nodup).mp
      (hfoundName.trans hplace.symm)
  exact h.id found condition hcondition

theorem Reachable.names_builtin {r : Registry} (h : r.Reachable) {name : String} {place : Nat}
    (hplace : (builtin.map (·.1))[place]? = some name) : r.names[place]? = some name := by
  obtain ⟨rest, hrest⟩ := h.builtin_isPrefix
  rw [← hrest, List.getElem?_append_left (List.getElem?_eq_some_iff.mp hplace).1, hplace]

/-- The names that the registry starts with keep the ids that they start with. -/
theorem Reachable.byName?_builtin {r : Registry} (h : r.Reachable) {name : String} {place : Nat}
    (hplace : (builtin.map (·.1))[place]? = some name) :
    ∃ condition, r.byName? name = some condition ∧ condition.id = 7 - (place : Int) :=
  h.numbered.byName?_id (h.names_builtin hplace)

/-- The condition that stands for every error of a function is always there. -/
theorem Reachable.byName?_functionError {r : Registry} (h : r.Reachable) :
    ∃ condition, r.byName? "FunctionError" = some condition ∧ condition.id = functionErrorId :=
  have hplace : (builtin.map (·.1))[1]? = some "FunctionError" := rfl
  h.byName?_builtin hplace

end Registry

/-! ## The ids of failures -/

namespace Failure

open Registry

theorem id_eq_of_byName? {failure : Failure} {r : Registry} {condition : Condition}
    (h : r.byName? failure.name = some condition) : failure.id r = condition.id := by
  rw [Failure.id, h]

/-- Of all the names that a failure can have, one has the id of success: that under which the host
lists success among its own conditions. -/
theorem id_eq_successId_iff {failure : Failure} {r : Registry} (h : r.Reachable) :
    failure.id r = successId ↔ failure.name = "NoError" := by
  have hplace : (builtin.map (·.1))[7]? = some "NoError" := rfl
  constructor
  · intro hid
    -- the place of the name is read off its id, and only one name stands at that place
    cases hfound : r.byName? failure.name with
    | none => simp [Failure.id, hfound, functionErrorId, successId] at hid
    | some condition =>
      have hmem : failure.name ∈ r.names := by
        by_contra hnew
        rw [byName?_eq_none_iff.mpr hnew] at hfound
        cases hfound
      obtain ⟨place, hname⟩ := List.mem_iff_getElem?.mp hmem
      obtain ⟨condition, hcondition, hnumber⟩ := h.numbered.byName?_id hname
      rw [id_eq_of_byName? hcondition, hnumber, successId] at hid
      obtain rfl : place = 7 := by omega
      exact Option.some.inj (hname.symm.trans (h.names_builtin hplace))
  · intro hname
    obtain ⟨condition, hcondition, hnumber⟩ := h.byName?_builtin hplace
    rw [← hname] at hcondition
    rw [id_eq_of_byName? hcondition, hnumber]
    rfl

/-- The names under which the library raises failures stand behind those of the host. -/
theorem name_mem_own {failure : Failure} (h : ∀ name message, failure ≠ .custom name message) :
    failure.name ∈ (libraryConditions ++ categoryConditions).map (·.1) := by
  have hcategory (concern : Concern) (category : Category) :
      concern.conditionName category ∈ (libraryConditions ++ categoryConditions).map (·.1) := by
    have hconcern : concern ∈ Concern.all := by cases concern <;> decide
    have hall : category ∈ Category.all := by
      rcases category with ((_ | _) | _) | _ <;> decide
    refine List.mem_map.mpr ⟨(_, concern.conditionMessage category), ?_, rfl⟩
    exact List.mem_append_right _
      (List.mem_flatMap.mpr ⟨category, hall, List.mem_map.mpr ⟨concern, hconcern, rfl⟩⟩)
  -- the conditions of a category are found by the category, the others are listed one by one
  cases failure
  case custom name message => exact absurd rfl (h name message)
  case allocation | clone | nullHandle | notShareable | conversion | unknownElement
      | elementMismatch | size => exact hcategory _ _
  all_goals simp [Failure.name, libraryConditions]

/-- A failure that the library raises by itself has a negative id, which no condition of the host
has. -/
theorem id_neg {failure : Failure} {r : Registry} (hr : r.Reachable)
    (h : ∀ name message, failure ≠ .custom name message) : failure.id r < 0 := by
  obtain ⟨place, hplace⟩ := List.mem_iff_getElem?.mp (name_mem_own h)
  have hbehind : (builtin.map (·.1))[8 + place]? = some failure.name := by
    rw [builtin, List.append_assoc, List.map_append,
      List.getElem?_append_right (by simp [hostConditions])]
    simpa [hostConditions] using hplace
  obtain ⟨condition, hcondition, hid⟩ := hr.byName?_builtin hbehind
  rw [id_eq_of_byName? hcondition, hid]
  omega

end Failure

end Custody
