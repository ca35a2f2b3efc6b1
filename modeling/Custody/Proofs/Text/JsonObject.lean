import Custody.Proofs.Text.Order
import Custody.Proofs.Text.JsonReader

/-!
# The members of an object

An object puts its members in increasing order of their names, whatever order they are given in.  If
no name is given twice, it loses none and adds none; so it does not depend on the order in which its
members are given (`Json.object_perm`), and a reader finds exactly these members
(`Json.read?_object`).
-/

namespace Custody

namespace Text.Json

/-- The members of an object: each is put at its place, one after another. -/
def inOrder (members : List (String × Json)) : List (String × Json) :=
  members.foldl (fun sorted member => insertMember member.1 member.2 sorted) []

theorem object_eq (members : List (String × Json)) : object members = .obj (inOrder members) := rfl

/-- The names increase, so none occurs twice. -/
def Sorted (members : List (String × Json)) : Prop := members.Pairwise (·.1 < ·.1)

/-! ## One member -/

section Insert

variable {name : String} {value : Json} {members : List (String × Json)}

private theorem mem_insertMember {member : String × Json}
    (h : member ∈ insertMember name value members) : member = (name, value) ∨ member ∈ members := by
  induction members with
  | nil => exact .inl (List.mem_singleton.mp h)
  | cons first rest ih =>
    rw [insertMember] at h
    split at h
    case isTrue => exact List.mem_cons.mp h
    split at h
    case isTrue => exact (List.mem_cons.mp h).imp_right (List.mem_cons_of_mem _)
    case isFalse =>
      rcases List.mem_cons.mp h with rfl | h
      · exact .inr List.mem_cons_self
      · exact (ih h).imp_right (List.mem_cons_of_mem _)

private theorem Sorted.insertMember (h : Sorted members) :
    Sorted (insertMember name value members) := by
  induction members with
  | nil => exact List.pairwise_singleton _ _
  | cons first rest ih =>
    obtain ⟨hfirst, hrest⟩ := List.pairwise_cons.mp h
    rw [Json.insertMember]
    split
    case isTrue hlt =>
      refine List.pairwise_cons.mpr ⟨fun member hmember => ?_, h⟩
      rcases List.mem_cons.mp hmember with rfl | hmember
      · exact hlt
      · exact hlt.trans (hfirst member hmember)
    split
    case isTrue heq =>
      subst heq
      exact List.pairwise_cons.mpr ⟨hfirst, hrest⟩
    case isFalse hnot hne =>
      refine List.pairwise_cons.mpr ⟨fun member hmember => ?_, ih hrest⟩
      rcases mem_insertMember hmember with rfl | hmember
      · exact lt_of_le_of_ne (not_lt.mp hnot) (Ne.symm hne)
      · exact hfirst member hmember

/-- A member of a new name replaces none. -/
private theorem insertMember_perm (h : name ∉ members.map (·.1)) :
    (insertMember name value members).Perm ((name, value) :: members) := by
  induction members with
  | nil => exact .refl _
  | cons first rest ih =>
    rw [List.map_cons, List.mem_cons, not_or] at h
    rw [insertMember, if_neg h.1]
    split
    case isTrue => exact .refl _
    case isFalse => exact ((ih h.2).cons first).trans (.swap _ _ _)

end Insert

/-! ## All members -/

variable {members others : List (String × Json)}

theorem sorted_inOrder (members : List (String × Json)) : Sorted (inOrder members) := by
  suffices h : ∀ sorted, Sorted sorted →
      Sorted (members.foldl (fun sorted m => insertMember m.1 m.2 sorted) sorted) from
    h [] List.Pairwise.nil
  induction members with
  | nil => exact fun _ h => h
  | cons member rest ih => exact fun sorted h => ih _ h.insertMember

/-- No member is lost if no name is given twice. -/
theorem inOrder_perm (h : (members.map (·.1)).Nodup) : (inOrder members).Perm members := by
  suffices hfold : ∀ sorted : List (String × Json), ((members ++ sorted).map (·.1)).Nodup →
      (members.foldl (fun sorted member => insertMember member.1 member.2 sorted) sorted).Perm
        (members ++ sorted) by
    have hall := hfold [] (by rwa [List.append_nil])
    rwa [List.append_nil] at hall
  clear h
  induction members with
  | nil => exact fun _ _ => .refl _
  | cons member rest ih =>
    intro sorted hnodup
    rw [List.cons_append, List.map_cons, List.nodup_cons] at hnodup
    -- the name of this member is new among those already in their places
    have hinsert : (insertMember member.1 member.2 sorted).Perm (member :: sorted) := by
      refine insertMember_perm fun hmem => hnodup.1 ?_
      rw [List.map_append]
      exact List.mem_append_right _ hmem
    have hmoved : (rest ++ insertMember member.1 member.2 sorted).Perm
        (member :: (rest ++ sorted)) :=
      (hinsert.append_left rest).trans List.perm_middle
    refine (ih _ ?_).trans hmoved
    exact ((hmoved.map _).nodup_iff).mpr (List.nodup_cons.mpr hnodup)

/-- **The order in which members are given does not matter.** -/
theorem object_perm (h : (members.map (·.1)).Nodup) (hperm : members.Perm others) :
    object members = object others := by
  have hothers : (others.map (·.1)).Nodup := (hperm.map _).nodup_iff.mp h
  rw [object_eq, object_eq]
  congr 1
  refine List.Perm.eq_of_pairwise (fun a b _ _ hab hba => absurd hab (lt_asymm hba))
    (sorted_inOrder members) (sorted_inOrder others) ?_
  exact (inOrder_perm h).trans (hperm.trans (inOrder_perm hothers).symm)

/-- **An object is read as its members**, in increasing order of the bytes of their names. -/
theorem read?_object (h : (members.map (·.1)).Nodup) :
    ∃ read, JsonValue.read? (object members).render = some (.object read) ∧
      read.Perm (members.map fun member => (member.1, member.2.value)) ∧
      read.Pairwise fun a b => utf8 a.1 < utf8 b.1 := by
  refine ⟨(inOrder members).map fun member => (member.1, member.2.value), ?_,
    (inOrder_perm h).map _, ?_⟩
  · rw [read?_render, object_eq, value, memberValues_eq_map]
  · exact List.pairwise_map.mpr ((sorted_inOrder members).imp utf8_lt_utf8)

end Text.Json

end Custody
