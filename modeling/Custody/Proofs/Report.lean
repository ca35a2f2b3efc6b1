import Custody.Host.Reference
import Custody.Host.Replacement
import Custody.Proofs.Session
import Custody.Proofs.Text.JsonObject
import Custody.Proofs.Text.Utf8
import Custody.Report

/-!
# Symbols and reports

Assigning a symbol of a host is one question to the host, asked only if both texts can cross.  A
JSON text always can: it holds no NUL (`Json.crosses_render`).  So what becomes of a report is up to
the host and the name of the symbol (`setSymbol_apply`, `publishConditions_apply`).

- `Host.KeepsSymbols`: a host that holds what it accepts, and is as it was where it refuses.
- `Host.reference_keepsSymbols`, `Host.KeepsSymbols.replace`: the hosts that do.
-/

namespace Custody

open SessionM Text

/-! ## The symbols of a memory -/

namespace Memory

variable (m : Memory) (symbol value : String)

@[simp] theorem symbol?_setSymbol : (m.setSymbol symbol value).symbol? symbol = some value := by
  simp [symbol?, setSymbol]

theorem symbol?_setSymbol_of_ne {other : String} (h : other ≠ symbol) :
    (m.setSymbol symbol value).symbol? other = m.symbol? other := by
  have hfirst : (symbol == other) = false := beq_eq_false_iff_ne.mpr h.symm
  simp only [symbol?, setSymbol, List.find?_cons, hfirst, List.find?_filter]
  -- of the entries that were there, none of the other symbol is dropped
  congr 2
  funext entry
  by_cases hentry : entry.1 = other
  · simp [hentry, h]
  · simp [hentry]

end Memory

/-! ## Texts that can cross -/

/-- Whatever is written as JSON can cross. -/
theorem Text.Json.crosses_render (j : Json) : Crosses j.render := fun hnul =>
  absurd (j.printable_render _ hnul) (by decide)

/-! ## Assigning a symbol -/

namespace Host

/-- A symbol that the host accepts holds its value from then on, and nothing else changes; nothing
changes where the host refuses. -/
def KeepsSymbols (host : Host) : Prop :=
  ∀ symbol value m, host.setSymbol symbol value m = (false, m) ∨
    ∃ name text, decode symbol = .ok name ∧ decode value = .ok text ∧
      host.setSymbol symbol value m = (true, m.setSymbol name text)

theorem reference_keepsSymbols : reference.KeepsSymbols := by
  intro symbol value m
  cases hname : decode symbol with
  | error flaw => exact .inl (by simp only [reference, hname])
  | ok name =>
    cases htext : decode value with
    | error flaw => exact .inl (by simp only [reference, hname, htext])
    | ok text => exact .inr ⟨name, text, rfl, rfl, by simp only [reference, hname, htext]⟩

/-- A host keeps its symbols when functions are replaced, unless it is to accept them without
keeping them. -/
theorem KeepsSymbols.replace {host : Host} (h : host.KeepsSymbols) {r : Replacement}
    (hr : r ≠ .setSymbolStatus true) : (host.replace r).KeepsSymbols := by
  cases r
  case setSymbolStatus succeeds =>
    cases succeeds with
    | true => exact absurd rfl hr
    | false => exact fun _ _ _ => .inl rfl
  all_goals exact h

/-- The host is asked to assign a text to a symbol. -/
def assign (host : Host) (symbol value : String) (m : Memory) : Bool × Memory :=
  host.setSymbol (utf8 symbol) (utf8 value) m

theorem reference_assign (symbol value : String) (m : Memory) :
    reference.assign symbol value m = (true, m.setSymbol symbol value) := by
  simp only [assign, reference, decode_utf8]

/-- A host that keeps its symbols refuses, or the symbol holds the text. -/
theorem KeepsSymbols.assign {host : Host} (h : host.KeepsSymbols) (symbol value : String)
    (m : Memory) :
    host.assign symbol value m = (false, m) ∨
      host.assign symbol value m = (true, m.setSymbol symbol value) := by
  rcases h (utf8 symbol) (utf8 value) m with hrefused | ⟨name, text, hname, htext, haccepted⟩
  · exact .inl hrefused
  · rw [decode_utf8, Except.ok.injEq] at hname htext
    subst hname htext
    exact .inr haccepted

end Host

section Assign

variable (host : Host) {symbol value : String} (s : Session)

/-- The session with the memory that the host leaves after it was asked to assign a symbol. -/
def Session.assigned (s : Session) (host : Host) (symbol value : String) : Session :=
  { s with memory := (host.assign symbol value s.memory).2 }

/-- Texts that can cross are passed to the host, which accepts the symbol or not. -/
theorem setSymbol_apply (hsymbol : Crosses symbol) (hvalue : Crosses value) :
    setSymbol host symbol value s =
      if (host.assign symbol value s.memory).1 then .ok () (s.assigned host symbol value)
      else .error (.failure (.reportRefused symbol)) (s.assigned host symbol value) := by
  rw [setSymbol, encodeText_eq_ok_iff.mpr ⟨hsymbol, rfl⟩, encodeText_eq_ok_iff.mpr ⟨hvalue, rfl⟩]
  simp only [ofExcept_ok, pure_bind]
  rw [bind_of_ok (onMemory_apply _ _)]
  show (if (host.assign symbol value s.memory).1 then pure () else fail (.reportRefused symbol))
    (s.assigned host symbol value) = _
  split <;> rfl

/-- The host is not asked for a symbol whose name cannot cross. -/
theorem setSymbol_of_firstNul (value : String) {position : Nat} (h : FirstNul symbol position) :
    setSymbol host symbol value s =
      .error (.failure (.badText (Flaw.nul position).reason)) s := by
  rw [setSymbol, h.encodeText_eq]
  rfl

theorem setSymbol_of_not_crosses (value : String) (h : ¬ Crosses symbol) :
    ∃ cause, setSymbol host symbol value s = .error (.failure cause) s := by
  obtain ⟨position, hnul⟩ := exists_firstNul h
  exact ⟨_, setSymbol_of_firstNul host s value hnul⟩

end Assign

/-! ## Reports -/

section Report

variable {host : Host} {s : Session}

theorem publishConditions_apply {symbol : String} (hhost : s.host = some host)
    (hsymbol : Crosses symbol) :
    publishConditions symbol s =
      if (host.assign symbol s.registry.toJson.render s.memory).1 then
        .ok () (s.assigned host symbol s.registry.toJson.render)
      else .error (.failure (.reportRefused symbol))
        (s.assigned host symbol s.registry.toJson.render) := by
  rw [publishConditions, bind_of_ok (installedHost_apply hhost)]
  exact setSymbol_apply host s hsymbol (Json.crosses_render _)

end Report

end Custody
