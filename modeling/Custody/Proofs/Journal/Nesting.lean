import Custody.Proofs.Memory.Levels
import Custody.Proofs.Journal.Trace
import Custody.Proofs.Journal.ReadBack

/-!
# How lists get into a circle

A list does not store itself, and that is all that is checked when something is appended.  A list
that lies in another one can still be appended to by its handle, and so it can be given the list
that it lies in.

Every operation of a journal appends one value that a list accepts, or it adds nodes that rise
(`Journal.Step.gives_or_rises`): a copy holds what was copied after it, whatever it is a copy of.
So a circle is closed by an append or not at all, and by an append exactly if what is appended leads
to the list (`Journal.circles_are_closed_by_appends`).
-/

namespace Custody

open SessionM Memory

/-! ## What a host is asked for -/

namespace Memory

/-- All that a host is asked for while a container is made only adds nodes that rise. -/
theorem admits_rises : Admits fun m m' => Rises m.allocations.size m m' where
  refl m := .refl m
  trans h h' := h.trans h' h.issued
  newArray category code extents m := .of_evolves (evolves_newArray m category code extents)
  newImage request m := .of_evolves (evolves_newImage m request)
  newList m := .of_evolves (evolves_newList m)
  cloneIf accepts h m := rises_cloneIf m accepts h
  convertImage h code interleaved m := .of_evolves (evolves_convertImage m h code interleaved)
  write t hhost index values m := .of_evolves (t.evolves_writeIn hhost index values m)
  free h m := by
    obtain ⟨gone, -, hevolves⟩ := evolves_free m h
    exact .of_evolves hevolves
  disown h m := by
    obtain ⟨gone, -, hevolves⟩ := evolves_disown m h
    exact .of_evolves hevolves

end Memory

namespace Journal

variable {kept : Set Nat} {u v w : Journal} {p : Posting}

/-- A list accepts one value, or nodes rise. -/
theorem Step.gives_or_rises (h : Step kept v w) (hfit : v.Fit) :
    (∃ p, Gives v w p) ∨ Rises v.memory.allocations.size v.memory w.memory :=
  h.gives_or_admitted (R := fun m m' => Rises m.allocations.size m m') admits_rises hfit
    (fun hbuilds => .of_evolves hbuilds.evolves) (fun _ _ nodes size => .of_nodes_eq nodes size.ge)
    fun k _ code method tolerance =>
      .of_evolves (evolves_convertArray v.memory k.handle code method tolerance)

/-! ## Runs -/

/-- An operation by which a circle is closed: a list accepts something else, from which it can be
reached. -/
structure Closes (v w : Journal) (p : Posting) : Prop extends Gives v w p where
  leads : ∃ id, p.value.object? = some id ∧ id ≠ p.list ∧ v.memory.Reaches id p.list

namespace Gives

/-- What is appended to a list has been issued, and it is not the list. -/
theorem namesOthers (h : Gives v w p) (hv : v.memory.NamesOthers) : w.memory.NamesOthers := by
  intro node hnode held hheld
  rw [h.memory, nodes_pushNode, Array.toList_push] at hnode
  rw [h.memory, size_pushNode]
  rcases List.mem_append.mp hnode with hold | hnew
  · exact hv node hold held hheld
  · obtain rfl := List.mem_singleton.mp hnew
    rw [Posting.nestedIn_node] at hheld
    obtain ⟨hlive, hne⟩ := h.accepts.object hheld
    exact ⟨hlive.lt_size, hne⟩

/-- An append closes a circle if what is appended leads to the list, and otherwise there is no
circle that was not there before. -/
theorem closes_of_circular (h : Gives v w p) (hv : v.memory.Tabled) {id : Nat}
    (hcircle : w.memory.Circular id) : v.memory.Circular id ∨ Closes v w p := by
  obtain ⟨l, hl⟩ := h.accepts.list
  rw [h.memory, circular_pushNode_iff hv hl] at hcircle
  refine hcircle.imp_right ?_
  rintro ⟨held, hheld, hfrom, hto⟩
  rw [Posting.nestedIn_node] at hheld
  exact ⟨h, held, hheld, (h.accepts.object hheld).2, hfrom.trans hto⟩

end Gives

/-- A circle that is there after an operation was there before, or the operation closed it. -/
theorem Step.closes_of_circular (h : Step kept v w) (hfit : v.Fit) (hv : v.memory.Tabled) {id : Nat}
    (hcircle : w.memory.Circular id) : v.memory.Circular id ∨ ∃ p, Closes v w p := by
  rcases h.gives_or_rises hfit with ⟨p, hgives⟩ | hrises
  · exact (hgives.closes_of_circular hv hcircle).imp_right fun hcloses => ⟨p, hcloses⟩
  · obtain ⟨posted, -, hchange⟩ := (h.effect hfit.host hfit.containers).change
    obtain ⟨added, gone, hevolves, -⟩ := hchange.evolves hfit.containers
    exact .inl (hrises.of_circular hevolves hv hcircle)

/-- What is known of the nesting after a run: no node names its own list, and where there is a
circle, it was closed. -/
structure Nested (kept : Set Nat) (u w : Journal) : Prop where
  names : w.memory.NamesOthers
  closed : (∃ id, w.memory.Circular id) →
    ∃ v v' p, Run kept u v ∧ Step kept v v' ∧ Run kept v' w ∧ v.Closes v' p

theorem nested_fresh (s : Session) (config : Config) :
    Nested kept (fresh s config) (fresh s config) where
  names node hnode := by cases hnode
  closed := by
    rintro ⟨id, held, hheld, -⟩
    cases hheld

theorem Nested.step {s : Session} {config : Config} (h : Nested kept (fresh s config) v)
    (hrun : Run kept (fresh s config) v) (hstep : Step kept v w) :
    Nested kept (fresh s config) w := by
  obtain ⟨hv, hrecorded⟩ := hrun.recorded
  constructor
  case names =>
    rcases hstep.gives_or_rises hv with ⟨p, hgives⟩ | hrises
    · exact hgives.namesOthers h.names
    · exact h.names.of_rises hrises
  case closed =>
    rintro ⟨id, hcircle⟩
    rcases hstep.closes_of_circular hv hrecorded.tabled hcircle with hold | ⟨p, hcloses⟩
    -- the circle was closed before, and the run goes on from there
    · obtain ⟨v', v'', p, hrun', hstep', hthen, hcloses⟩ := h.closed ⟨id, hold⟩
      exact ⟨v', v'', p, hrun', hstep', hthen.step hstep, hcloses⟩
    · exact ⟨v, w, p, hrun, hstep, .refl w, hcloses⟩

theorem Run.nested {s : Session} {config : Config} (h : Run kept (fresh s config) w) :
    Nested kept (fresh s config) w :=
  (h.step_invariant (P := Nested kept (fresh s config)) (fit_fresh s config)
    (nested_fresh s config) fun _ _ hbefore _ hnested hstep => hnested.step hbefore hstep).2

/-- **A circle is closed by an append, or not at all.**  Whatever a host that starts anew and its
library do, no list holds itself, but lists can hold each other.  Where there is a circle, some
operation has closed it: a list accepted something else from which it was reached.  And whatever a
list accepts, the circles that there are then are those of before, and those on the way from what is
appended to the list.  Where no circle is reached, deep copying ends by itself within as many levels
as there are objects; where one is reached, it succeeds with no number of levels. -/
theorem circles_are_closed_by_appends {s : Session} {config : Config}
    (hrun : Run kept (fresh s config) w) :
    (∀ id, id ∉ w.memory.holdings id) ∧
    ((∃ id, w.memory.Circular id) → ∃ v v' p,
      Run kept (fresh s config) v ∧ Step kept v v' ∧ Run kept v' w ∧ v.Closes v' p) ∧
    (∀ p, w.memory.Accepts p → ∀ id, (w.memory.pushNode p.node).Circular id ↔
      w.memory.Circular id ∨ ∃ held, p.value.object? = some held ∧
        w.memory.Reaches held id ∧ w.memory.Reaches id p.list) ∧
    ∀ root,
      (w.memory.Acyclic root → ∀ depth, w.memory.allocations.size ≤ depth →
        copyWithin depth root w.memory = w.memory.copy root) ∧
      (¬ w.memory.Acyclic root → ∀ depth, (copyWithin depth root w.memory).1 = none) := by
  obtain ⟨-, hrecorded⟩ := hrun.recorded
  have htabled : w.memory.Tabled := hrecorded.tabled
  have hnested : Nested kept (fresh s config) w := hrun.nested
  refine ⟨fun id hself => ?_, hnested.closed, fun p haccepts id => ?_, fun root => ⟨?_, ?_⟩⟩
  · obtain ⟨-, node, hnode, rfl, hheld⟩ := (holds_iff htabled).mp hself
    exact (hnested.names node hnode _ hheld).2 rfl
  · obtain ⟨l, hl⟩ := haccepts.list
    rw [circular_pushNode_iff htabled hl, Posting.nestedIn_node]
    rfl
  · exact fun hacyclic depth hdepth =>
      copyWithin_eq_copy htabled hnested.names hacyclic hdepth
  · exact copyWithin_eq_none

/-- The host makes two lists, appends the second to the first, and then the first to the second. -/
theorem two_lists_in_a_circle :
    ∃ w, Run ∅ (fresh {} {}) w ∧
      w.postings = [⟨0, none, .object .list 1⟩, ⟨1, none, .object .list 0⟩] ∧
      w.memory.Circular 0 ∧ (∀ id, id ∉ w.memory.holdings id) ∧
      (∃ v v' p, Run ∅ (fresh {} {}) v ∧ Step ∅ v v' ∧ Run ∅ v' w ∧ v.Closes v' p) ∧
      ∀ depth, (copyWithin depth 0 w.memory).1 = none := by
  let made : Session := { (fresh {} {}).session with
    memory := (fresh {} {}).memory.buildList.2.buildList.2 }
  let once : Session := { made with
    memory := (made.memory.buildNode (.ofId 0) none .dataList (.handle (.ofId 1))).2 }
  let twice : Session := { once with
    memory := (once.memory.buildNode (.ofId 1) none .dataList (.handle (.ofId 0))).2 }
  have hmade : Run ∅ (fresh {} {}) ⟨made, 0, []⟩ :=
    ((Run.refl _).step (.build .list)).step (.build .list)
  have honce : Run ∅ (fresh {} {}) ⟨once, 0, [⟨0, none, .object .list 1⟩]⟩ :=
    hmade.step (.hostPost (.ofId 0) none (.object .list 1))
  have htwice : Run ∅ (fresh {} {})
      ⟨twice, 0, [⟨0, none, .object .list 1⟩, ⟨1, none, .object .list 0⟩]⟩ :=
    honce.step (.hostPost (.ofId 1) none (.object .list 0))
  have hback : twice.memory.Reaches 1 0 :=
    .head (by decide) (.root (by decide))
  have hcircle : twice.memory.Circular 0 := ⟨1, by decide, hback⟩
  have hcyclic : ¬ twice.memory.Acyclic 0 := fun hacyclic =>
    acyclic_iff.mp hacyclic 0 (.root hback.live) hcircle
  obtain ⟨hself, hclosed, -, hcopying⟩ := circles_are_closed_by_appends htwice
  exact ⟨_, htwice, rfl, hcircle, hself, hclosed ⟨0, hcircle⟩, (hcopying 0).2 hcyclic⟩

end Journal

end Custody
