import Mathlib.Data.List.Forall2
import Mathlib.Data.List.Infix

/-!
# Runs

A run takes a state through a list of inputs and collects what each step gives.
What holds at the start and is kept by every step holds at the end.
-/

/-!
## Outcomes

A computation that can fail ends with a value or with an error. A sequence or a
fold of such computations succeeds only if each of its parts does.
-/

namespace ProjectHub

variable {α β ε σ : Type}

/-- A sequence succeeds only if its first part does. -/
theorem exists_of_bind_ok {x : Except ε α} {f : α → Except ε β} {b : β} (h : x >>= f = .ok b) :
    ∃ a, x = .ok a ∧ f a = .ok b := by
  cases x with
  | error error => cases h
  | ok a => exact ⟨a, rfl, h⟩

theorem bind_eq_ok_iff {x : Except ε α} {f : α → Except ε β} {b : β} :
    x >>= f = .ok b ↔ ∃ a, x = .ok a ∧ f a = .ok b := by
  constructor
  · exact exists_of_bind_ok
  · rintro ⟨a, rfl, h⟩
    exact h

theorem foldlM_cons_eq_ok_iff {f : σ → α → Except ε σ} {a : α} {l : List α} {s t : σ} :
    (a :: l).foldlM f s = .ok t ↔ ∃ m, f s a = .ok m ∧ l.foldlM f m = .ok t := by
  rw [List.foldlM_cons, bind_eq_ok_iff]

/-- A value given unless something is wrong. -/
theorem ite_throw_eq_ok_iff {c : Bool} {error : ε} {a b : α} :
    (if c = true then (throw error : Except ε PUnit) >>= fun _ => pure a else pure a) = .ok b ↔
      c = false ∧ a = b := by
  cases c
  · simp [pure, Except.pure]
  · exact iff_of_false nofun nofun

theorem map_eq_ok_iff {x : Except ε α} {f : α → β} {b : β} :
    x.map f = .ok b ↔ ∃ a, x = .ok a ∧ f a = b := by
  cases x <;> simp [Except.map]

theorem map_eq_error_iff {x : Except ε α} {f : α → β} {error : ε} :
    x.map f = .error error ↔ x = .error error := by
  cases x <;> simp [Except.map]

/-- Outcomes that are the same error, or related values. -/
inductive Matches (R : α → β → Prop) : Except ε α → Except ε β → Prop where
  | error (error : ε) : Matches R (.error error) (.error error)
  | ok {a : α} {b : β} (h : R a b) : Matches R (.ok a) (.ok b)

/-- What every step of a fold keeps, the fold keeps. -/
theorem foldlM_ok_of_step {f : σ → α → Except ε σ} {P : σ → Prop} {l : List α}
    (hstep : ∀ s, ∀ a ∈ l, ∀ s', P s → f s a = .ok s' → P s') {s s' : σ} (hs : P s)
    (h : l.foldlM f s = .ok s') : P s' := by
  induction l generalizing s with
  | nil =>
      cases h
      exact hs
  | cons a l ih =>
      rw [List.foldlM_cons] at h
      obtain ⟨next, hfirst, h⟩ := exists_of_bind_ok h
      exact ih (fun s b hb => hstep s b (List.mem_cons_of_mem _ hb))
        (hstep s a List.mem_cons_self next hs hfirst) h

/-- A list of parts that each come out right comes out right. -/
theorem mapM_of_forall₂ {f : β → Option α} {items : List α} {parts : List β}
    (h : List.Forall₂ (fun item part => f part = some item) items parts) :
    parts.mapM f = some items := by
  induction h with
  | nil => rfl
  | cons hitem _ ih =>
      rw [List.mapM_cons, hitem, ih]
      rfl

theorem forall₂_of_mapM {f : β → Option α} {parts : List β} {items : List α}
    (h : parts.mapM f = some items) :
    List.Forall₂ (fun part item => part ∈ parts ∧ f part = some item) parts items := by
  induction parts generalizing items with
  | nil =>
      cases h
      exact .nil
  | cons part parts ih =>
      rw [List.mapM_cons] at h
      obtain ⟨first, hfirst, h⟩ := Option.bind_eq_some_iff.1 h
      obtain ⟨others, hothers, h⟩ := Option.bind_eq_some_iff.1 h
      cases h
      exact .cons ⟨List.mem_cons_self, hfirst⟩
        ((ih hothers).imp fun _ _ h => ⟨List.mem_cons_of_mem _ h.1, h.2⟩)

/-- Items that each give back what they were made of give it back together. -/
theorem mapM_map_eq_some {f : β → Option α} {g : α → β} {items : List α}
    (h : ∀ item ∈ items, f (g item) = some item) : (items.map g).mapM f = some items := by
  refine mapM_of_forall₂ ?_
  rwa [List.forall₂_map_right_iff, List.forall₂_same]

/-- What comes out of a list of parts came out of one of them. -/
theorem exists_of_mem_mapM {f : β → Option α} {parts : List β} {items : List α}
    (h : parts.mapM f = some items) {item : α} (hitem : item ∈ items) :
    ∃ part ∈ parts, f part = some item := by
  induction parts generalizing items with
  | nil =>
      cases h
      cases hitem
  | cons part parts ih =>
      rw [List.mapM_cons] at h
      obtain ⟨first, hfirst, h⟩ := Option.bind_eq_some_iff.1 h
      obtain ⟨others, hothers, h⟩ := Option.bind_eq_some_iff.1 h
      cases h
      rcases List.mem_cons.1 hitem with rfl | hitem
      · exact ⟨part, List.mem_cons_self, hfirst⟩
      · obtain ⟨other, hmem, hother⟩ := ih hothers hitem
        exact ⟨other, List.mem_cons_of_mem _ hmem, hother⟩

/-- Each of a list of parts comes out where all of them do. -/
theorem exists_item_of_mapM {f : β → Option α} {parts : List β} {items : List α}
    (h : parts.mapM f = some items) {part : β} (hpart : part ∈ parts) :
    ∃ item ∈ items, f part = some item := by
  induction parts generalizing items with
  | nil => cases hpart
  | cons first parts ih =>
      rw [List.mapM_cons] at h
      obtain ⟨item, hitem, h⟩ := Option.bind_eq_some_iff.1 h
      obtain ⟨others, hothers, h⟩ := Option.bind_eq_some_iff.1 h
      cases h
      rcases List.mem_cons.1 hpart with rfl | hpart
      · exact ⟨item, List.mem_cons_self, hitem⟩
      · obtain ⟨other, hmem, hother⟩ := ih hothers hpart
        exact ⟨other, List.mem_cons_of_mem _ hmem, hother⟩

/-- Parts that each succeed succeed in sequence. -/
theorem mapM_map_eq_ok {f : β → Except ε σ} {part : α → β} {value : α → σ} {items : List α}
    (h : ∀ item ∈ items, f (part item) = .ok (value item)) :
    (items.map part).mapM f = .ok (items.map value) := by
  induction items with
  | nil => rfl
  | cons item items ih =>
      rw [List.map_cons, List.mapM_cons, h item (List.mem_cons_self ..),
        ih fun other hother => h other (List.mem_cons_of_mem item hother)]
      rfl

end ProjectHub

/-! ## States along a run -/

namespace ProjectHub

variable {σ ι τ : Type}

/-- The state after inputs in their order, and what each step gave, oldest first. -/
def runAll (step : σ → ι → σ × τ) (s : σ) : List ι → σ × List τ
  | [] => (s, [])
  | input :: inputs =>
    let (next, given) := step s input
    let (last, rest) := runAll step next inputs
    (last, given :: rest)

section Invariant

variable {step : σ → ι → σ × τ} {inputs : List ι} {P : List ι → σ → List τ → Prop}
  (hstep : ∀ past input s given, past ++ [input] <+: inputs → P past s given →
    P (past ++ [input]) (step s input).1 (given ++ [(step s input).2]))
include hstep

private theorem runAll_of_step_from {past rest : List ι} {s : σ} {given : List τ}
    (hinputs : past ++ rest = inputs) (h : P past s given) :
    P inputs (runAll step s rest).1 (given ++ (runAll step s rest).2) := by
  induction rest generalizing past s given with
  | nil =>
      rw [List.append_nil] at hinputs
      rw [runAll, List.append_nil, ← hinputs]
      exact h
  | cons input rest ih =>
      rw [List.append_cons] at hinputs
      have hlast := ih hinputs (hstep past input s given ⟨rest, hinputs⟩ h)
      rw [List.append_assoc, List.singleton_append] at hlast
      exact hlast

/-- A relation of the inputs so far, the state and what was given, which every step keeps. -/
theorem runAll_of_step {s : σ} (hstart : P [] s []) :
    P inputs (runAll step s inputs).1 (runAll step s inputs).2 :=
  runAll_of_step_from hstep (List.nil_append inputs) hstart

end Invariant

section Pair

variable {step : σ → ι → σ × τ}

/-- Two runs on related inputs give what is related, if all steps do and keep the states so. -/
theorem runAll_related {R : σ → σ → Prop} {P : ι → ι → Prop} {Q : τ → τ → Prop}
    (hstep : ∀ s s' input input', R s s' → P input input' →
      Q (step s input).2 (step s' input').2 ∧ R (step s input).1 (step s' input').1)
    {s s' : σ} (h : R s s') {inputs inputs' : List ι} (hinputs : List.Forall₂ P inputs inputs') :
    List.Forall₂ Q (runAll step s inputs).2 (runAll step s' inputs').2 := by
  induction hinputs generalizing s s' with
  | nil => exact .nil
  | cons hinput _ ih =>
      obtain ⟨hgiven, hnext⟩ := hstep s s' _ _ h hinput
      exact .cons hgiven (ih hnext)

/-- A run gives some of its inputs what a run on these alone gives them, if the others keep a
relation of the states that depends on the inputs still to come. -/
theorem runAll_filter {p : ι → Bool} {R : List ι → σ → σ → Prop}
    (hown : ∀ input rest s s', p input = true → R (input :: rest) s s' →
      (step s input).2 = (step s' input).2 ∧ R rest (step s input).1 (step s' input).1)
    (hother : ∀ input rest s s', p input = false → R (input :: rest) s s' →
      R rest (step s input).1 s')
    {s s' : σ} {inputs : List ι} (h : R inputs s s') :
    (runAll (fun s input => ((step s input).1, input, (step s input).2)) s inputs).2.filter
        (fun given => p given.1) =
      (runAll (fun s input => ((step s input).1, input, (step s input).2)) s'
        (inputs.filter p)).2 := by
  induction inputs generalizing s s' with
  | nil => rfl
  | cons input rest ih =>
      cases hp : p input with
      | true =>
          obtain ⟨hgiven, hnext⟩ := hown input rest s s' hp h
          simp only [runAll, List.filter_cons, hp, if_true, hgiven]
          exact congrArg (List.cons _) (ih hnext)
      | false =>
          simp only [runAll, List.filter_cons, hp, Bool.false_eq_true, if_false]
          exact ih (hother input rest s s' hp h)

end Pair

theorem filterMap_concat (f : ι → Option τ) (history : List ι) (event : ι) :
    (history ++ [event]).filterMap f = history.filterMap f ++ (f event).toList := by
  rw [List.filterMap_append]
  cases h : f event <;> simp [h]

end ProjectHub
