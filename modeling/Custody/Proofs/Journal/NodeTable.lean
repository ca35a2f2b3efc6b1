import Custody.Proofs.Host.Service
import Custody.Proofs.Journal.Hostless
import Custody.Proofs.Journal.Succession

/-!
# The node table at any time

A chronicle is anything that can happen: whatever a library does with its containers, whatever the
host is called for or does by itself, the host going away, coming back and starting anew
(`Journal.Chronicle`).  The library reaches the memory only through what the host can be called for
(`Journal.Step.attains`), and that keeps the memory orderly.  So the node table is in order at any
time, in lists that were copied, after objects have died that nodes still name, and whatever payload
was appended under a code (`Journal.node_table_in_order`).
-/

namespace Custody

open SessionM Memory

namespace Journal

variable {kept : Set Nat} {u v w : Journal}

/-! ## By the table of the host alone -/

/-- What the library does comes to a number of things that the host does. -/
theorem Step.attains (h : Step kept v w) (hfit : v.Fit) : v.memory.Attains w.memory := by
  have hconverts : ∀ k : Container .numeric, k.any ∈ v.containers →
      Converts Memory.Attains v.memory k := fun k _ code method tolerance =>
    .single (.convertArray k.handle code method tolerance)
  rcases h.gives_or_admitted admits_attains hfit (fun hbuilds => .single (.build hbuilds))
    (fun _ objects nodes size => .single (.aside objects nodes size)) hconverts with
    ⟨p, hgives⟩ | hattains
  · -- the value that the list accepts is appended as the host appends anything
    obtain ⟨⟨l, hl⟩, hstorable⟩ := hgives.accepts
    have hserves : v.memory.Serves _ :=
      .addNode p.list p.node.name p.value.kind.code p.value.payload
    rw [addNode_of_list hl, if_pos hstorable] at hserves
    rw [hgives.memory]
    exact .single hserves
  · exact hattains

/-! ## Chronicles -/

/-- Anything that can happen.  An operation that is dispatched may do whatever a chronicle can do. -/
inductive Chronicle : Journal → Journal → Prop where
  | refl (w : Journal) : Chronicle w w
  | step {u v w : Journal} (before : Chronicle u v) (last : Step ∅ v w) : Chronicle u w
  | dispatch {u : Journal} {s cs ps} {b : BufferCategory} {α : Type} {k : Container (.buffer b)}
    (operation : (kind : b.Kind) → Buffer kind → SessionM α) {kind : b.Kind}
    (before : Chronicle u ⟨s, k.any ::ₘ cs, ps⟩) (hkind : k.elementKind? s.memory = some kind)
    {cs' ps'}
    (effect : Chronicle ⟨s, k.any ::ₘ cs, ps⟩ ⟨endState (operation kind ⟨k⟩ s), cs', ps'⟩) :
    Chronicle u ⟨endState (k.dispatch operation s), cs', ps'⟩
  /-- The host is called for something, with any arguments, or does something by itself. -/
  | serve {u : Journal} {s cs ps m} (before : Chronicle u ⟨s, cs, ps⟩) (h : s.memory.Serves m) :
    Chronicle u ⟨{ s with memory := m }, cs, ps⟩
  | uninstall {u : Journal} {s cs ps} (before : Chronicle u ⟨s, cs, ps⟩) :
    Chronicle u ⟨s.uninstall, cs, ps⟩
  | install {u : Journal} {s cs ps} (before : Chronicle u ⟨s, cs, ps⟩) (config : Config) :
    Chronicle u ⟨s.install .reference config, cs, ps⟩
  /-- The host starts anew, and the containers are left over. -/
  | renew {u v : Journal} (before : Chronicle u v) (config : Config) :
    Chronicle u (v.renewed config)

/-- No other host than the reference host is installed, and all containers are its own. -/
structure Loyal (v : Journal) : Prop where
  host : v.session.host = none ∨ v.session.host = some .reference
  containers : ∀ k ∈ v.containers, k.2.Fit

theorem Fit.loyal (h : v.Fit) : v.Loyal := ⟨.inr h.host, h.containers⟩

/-- An operation of the library keeps what is known, whether a host is installed or not. -/
theorem Loyal.step (hv : v.Loyal) (h : Step kept v w) (horderly : v.memory.Orderly) :
    w.Loyal ∧ w.memory.Orderly := by
  rcases hv.host with hnone | hreference
  · obtain ⟨hleft, ⟨hsession, hcontainers⟩ | hhosted⟩ := h.hosted hnone
    · refine ⟨⟨.inl hleft, hcontainers ▸ hv.containers⟩, ?_⟩
      rw [Journal.memory, hsession]
      exact horderly
    · have hfit : v.hosted.Fit := ⟨rfl, hv.containers⟩
      have hend : w.hosted.Fit := (hhosted.effect hfit.host hfit.containers).fit hfit
      exact ⟨⟨.inl hleft, hend.containers⟩, ((hhosted.attains hfit).upholds horderly).orderly⟩
  · have hfit : v.Fit := ⟨hreference, hv.containers⟩
    have hend : w.Fit := (h.effect hfit.host hfit.containers).fit hfit
    exact ⟨hend.loyal, ((h.attains hfit).upholds horderly).orderly⟩

/-- Whatever happens, the memory stays orderly. -/
theorem Chronicle.orderly (h : Chronicle u w) (hu : u.Loyal) (horderly : u.memory.Orderly) :
    w.Loyal ∧ w.memory.Orderly := by
  induction h with
  | refl => exact ⟨hu, horderly⟩
  | step _ last ih =>
    obtain ⟨hv, hmemory⟩ := ih hu horderly
    exact hv.step last hmemory
  | dispatch operation _ hkind _ ihBefore ihEffect =>
    obtain ⟨hv, hmemory⟩ := ihBefore hu horderly
    rw [Estate.endState_dispatch hkind]
    exact ihEffect hv hmemory
  | serve _ hserves ih =>
    obtain ⟨hv, hmemory⟩ := ih hu horderly
    exact ⟨⟨hv.host, hv.containers⟩, (hserves.upholds hmemory).orderly⟩
  | uninstall _ ih =>
    obtain ⟨hv, hmemory⟩ := ih hu horderly
    exact ⟨⟨.inl rfl, hv.containers⟩, hmemory⟩
  | install _ config ih =>
    obtain ⟨hv, hmemory⟩ := ih hu horderly
    exact ⟨⟨.inr rfl, hv.containers⟩, hmemory⟩
  | renew _ config ih =>
    obtain ⟨hv, -⟩ := ih hu horderly
    exact ⟨⟨.inr rfl, hv.containers⟩, orderly_empty⟩

/-! ## The node table -/

/-- **The node table is in order at any time.**  Whatever has happened since a host started: the
nodes of a list come in the order of their numbers; a node is in one list at most, once, namely in
the list that it was appended to for as long as that is live; its code is that of one of the kinds
that are stored; and if that is the kind of an object, the handle that it holds was issued, and names
an object of that kind or nothing that is live.  So what is read as a view, of whatever node, is a
view of an object of its category, if the object is live. -/
theorem node_table_in_order {s : Session} {config : Config} (h : Chronicle (fresh s config) w) :
    w.memory.InOrder :=
  (h.orderly (fit_fresh s config).loyal orderly_empty).2.inOrder

/-- A tensor and a list.  The host appends the number 16 to the list under the kind of tensors,
which is the address of the tensor; the library copies the list; the host is removed, and the tensor
is freed.  The first node then is a view of a tensor that is dead, and the second one, in the copy of
the list, is a view of a tensor that is live. -/
theorem views_of_a_dead_tensor_and_its_copy :
    ∃ w, Chronicle (fresh {} {}) w ∧ w.session.host = none ∧
      ¬ w.memory.Live 0 ∧ w.memory.Live 3 ∧
      (∃ id, (⟨.ofId 0, .reference⟩ : DataNode).value w.memory =
        .ok (.view (⟨.ofId id, .host, .reference⟩ : Container .tensor)) ∧
        w.memory.Names id .tensor) ∧
      ∃ id, (⟨.ofId 1, .reference⟩ : DataNode).value w.memory =
        .ok (.view (⟨.ofId id, .host, .reference⟩ : Container .tensor)) ∧
        w.memory.Names id .tensor := by
  let list : Container .list := ⟨.ofId 1, .library, .reference⟩
  let start : Session := (fresh {} {}).session
  have hbuilt : Chronicle (fresh {} {}) ⟨_, 0, []⟩ :=
    .serve (s := start) (.refl _) (.build (.array .tensor 0 [1] 8 []))
  have hlist := hbuilt.serve .newList
  have hnumber := hlist.serve (.addNode 1 none ArgumentKind.tensor.code (.integer 16))
  have htaken : Chronicle (fresh {} {}) ⟨_, list.any ::ₘ 0, []⟩ :=
    hnumber.step (.takeOver .list (h := .ofId 1) (by simp))
  have hcopied := htaken.step (.make (.clone (Multiset.mem_cons_self list.any 0)))
  have hfreed := hcopied.uninstall.serve (.free (.ofId 0))
  have horder := node_table_in_order hfreed
  refine ⟨_, hfreed, rfl, by decide, by decide, ?_, ?_⟩
  · exact horder.shown 0 ⟨1, none, ArgumentKind.tensor.code, .integer 16⟩ .tensor (by decide)
      (by decide) (by decide)
  · exact horder.shown 1 ⟨2, none, ArgumentKind.tensor.code, .handle (.ofId 3)⟩ .tensor
      (by decide) (by decide) (by decide)

end Journal

end Custody
