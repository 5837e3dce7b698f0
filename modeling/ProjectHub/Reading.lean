/-!
# Readings

A reader that consumes input returns what it read with what is left, and the
proof that less is left. Recursive readers end because of it.
-/

namespace ProjectHub

/-- Something read from the front of `input`, and the shorter rest. -/
structure Reading {τ : Type} (α : Type) (input : List τ) where
  /-- What was read. -/
  value : α
  /-- What is left. -/
  rest : List τ
  /-- At least one element was read. -/
  shorter : rest.length < input.length

namespace Reading

variable {τ : Type} {α β : Type}

/-- The reading with another value. -/
def map {input : List τ} (f : α → β) (r : Reading α input) : Reading β input :=
  ⟨f r.value, r.rest, r.shorter⟩

/-- A reading of the first element only. -/
def ofHead (value : α) (first : τ) (rest : List τ) : Reading α (first :: rest) :=
  ⟨value, rest, Nat.lt_succ_self _⟩

/-- The reading after one more element in front. -/
def behind {input : List τ} (first : τ) (r : Reading α input) : Reading α (first :: input) :=
  ⟨r.value, r.rest, Nat.lt_succ_of_lt r.shorter⟩

/-- A reading of what an earlier reading left. -/
def after {input : List τ} (r : Reading α input) (next : Reading β r.rest) : Reading β input :=
  ⟨next.value, next.rest, Nat.lt_trans next.shorter r.shorter⟩

/-- The reading of what is left, if that is less. -/
def ofRest? {input : List τ} (value : α) (rest : List τ) : Option (Reading α input) :=
  if h : rest.length < input.length then some ⟨value, rest, h⟩ else none

/-- A reading of what comes after a front that may be passed over. -/
def ofSuffix {input after : List τ} (r : Reading α after) (h : after.length ≤ input.length) :
    Reading α input :=
  ⟨r.value, r.rest, Nat.lt_of_lt_of_le r.shorter h⟩

/-- The reading that also passes over what `skip` drops. -/
def skipping {input : List τ} {skip : List τ → List τ} (r : Reading α input)
    (h : ∀ cs, (skip cs).length ≤ cs.length) : Reading α input :=
  ⟨r.value, skip r.rest, Nat.lt_of_le_of_lt (h r.rest) r.shorter⟩

/-- The reading that also takes the next element. -/
def taking {input more : List τ} {next : τ} (r : Reading α input) (h : r.rest = next :: more) :
    Reading α input :=
  ⟨r.value, more, Nat.lt_trans (h ▸ Nat.lt_succ_self _) r.shorter⟩

end Reading

end ProjectHub
