import ProjectHub.Proofs.Document.Grammar

/-!
# Trees written out

Any tree of blocks, attributes and values can be written as tokens: a block with
its labels as text, its attributes before its inner blocks, values separated by
commas. Reading the tokens, on whatever lines they stand, gives the tree back but
for its lines.
-/

namespace ProjectHub.Document

/-! ## Tokens of a tree -/

mutual

/-- The tokens of a value. -/
def Value.tokens : Value → List Token
  | .text value => [.text value]
  | .number digits => [.number digits]
  | .bool value => [.ident (if value then "true" else "false")]
  | .ident name => [.ident name]
  | .call name args => .ident name :: .openParen :: (Value.tokensOf args ++ [.closeParen])
  | .list items => .openBracket :: (Value.tokensOf items ++ [.closeBracket])

/-- The tokens of values separated by commas. -/
def Value.tokensOf : List Value → List Token
  | [] => []
  | [v] => v.tokens
  | v :: w :: rest => v.tokens ++ .comma :: Value.tokensOf (w :: rest)

end

mutual

/-- Whether the words in a value are none of the truth values. -/
def Value.isReadable : Value → Bool
  | .ident name => name ≠ "true" ∧ name ≠ "false"
  | .call name args => (name ≠ "true" ∧ name ≠ "false") && Value.areReadable args
  | .list items => Value.areReadable items
  | _ => true

/-- Whether that holds of all values. -/
def Value.areReadable : List Value → Bool
  | [] => true
  | v :: rest => v.isReadable && Value.areReadable rest

end

/-- The tokens of an attribute. -/
def Attribute.tokens (a : Attribute) : List Token :=
  .ident a.name :: .equals :: a.value.tokens

/-- The attribute without its line. -/
def Attribute.unplaced (a : Attribute) : Attribute :=
  { a with line := 0 }

mutual

/-- The tokens of a block. -/
def Block.tokens : Block → List Token
  | ⟨kind, labels, attributes, blocks, _⟩ =>
    .ident kind :: (labels.map .text ++ .openBrace :: (attributes.flatMap Attribute.tokens ++
      (Block.tokensOf blocks ++ [.closeBrace])))

/-- The tokens of blocks one after the other. -/
def Block.tokensOf : List Block → List Token
  | [] => []
  | b :: rest => b.tokens ++ Block.tokensOf rest

end

mutual

/-- The block without lines. -/
def Block.unplaced : Block → Block
  | ⟨kind, labels, attributes, blocks, _⟩ =>
    ⟨kind, labels, attributes.map Attribute.unplaced, Block.allUnplaced blocks, 0⟩

/-- The blocks without lines. -/
def Block.allUnplaced : List Block → List Block
  | [] => []
  | b :: rest => b.unplaced :: Block.allUnplaced rest

end

@[simp] theorem Block.kind_unplaced (b : Block) : b.unplaced.kind = b.kind := by
  cases b
  rfl

mutual

/-- Whether all values in a block are readable. -/
def Block.isReadable : Block → Bool
  | ⟨_, _, attributes, blocks, _⟩ =>
    attributes.all (fun a => a.value.isReadable) && Block.areReadable blocks

/-- Whether that holds of all blocks. -/
def Block.areReadable : List Block → Bool
  | [] => true
  | b :: rest => b.isReadable && Block.areReadable rest

end

theorem Value.areReadable_iff {vs : List Value} :
    Value.areReadable vs = true ↔ ∀ v ∈ vs, v.isReadable = true := by
  induction vs with
  | nil => simp [Value.areReadable]
  | cons v vs ih => simp [Value.areReadable, ih]

theorem Block.areReadable_iff {bs : List Block} :
    Block.areReadable bs = true ↔ ∀ b ∈ bs, b.isReadable = true := by
  induction bs with
  | nil => simp [Block.areReadable]
  | cons b bs ih => simp [Block.areReadable, ih]

theorem Block.allUnplaced_eq_map (bs : List Block) :
    Block.allUnplaced bs = bs.map Block.unplaced := by
  induction bs with
  | nil => rfl
  | cons b bs ih => rw [Block.allUnplaced, ih, List.map_cons]

theorem Block.tokensOf_eq_flatMap (bs : List Block) :
    Block.tokensOf bs = bs.flatMap Block.tokens := by
  induction bs with
  | nil => rfl
  | cons b bs ih => rw [Block.tokensOf, ih, List.flatMap_cons]

/-! ## Values -/

theorem spellsSequence_tokensOf {close : Token} {vs : List Value}
    (hvs : ∀ v ∈ vs, SpellsValue v.tokens v) :
    SpellsSequence close (Value.tokensOf vs ++ [close]) vs := by
  induction vs with
  | nil => exact .close close
  | cons v vs ih =>
      obtain ⟨hv, hvs⟩ := List.forall_mem_cons.mp hvs
      cases vs with
      | nil => exact .last hv
      | cons w vs =>
          rw [Value.tokensOf, List.append_assoc, List.cons_append]
          exact .comma hv (ih hvs)

/-- Every readable value is spelled by its tokens. -/
theorem Value.spells (v : Value) (hv : v.isReadable = true) : SpellsValue v.tokens v := by
  match v with
  | .text value => exact .text value
  | .number digits => exact .number digits
  | .bool true => exact .true
  | .bool false => exact .false
  | .ident name => exact .word (by simpa [Value.isReadable] using hv)
  | .call name args =>
      simp only [Value.isReadable, Bool.and_eq_true, Value.areReadable_iff, decide_eq_true_eq] at hv
      exact .call hv.1 (spellsSequence_tokensOf fun w hw => w.spells (hv.2 w hw))
  | .list items =>
      simp only [Value.isReadable, Value.areReadable_iff] at hv
      exact .list (spellsSequence_tokensOf fun w hw => w.spells (hv w hw))
termination_by sizeOf v
decreasing_by
  · have := List.sizeOf_lt_of_mem hw
    simp only [Value.call.sizeOf_spec]
    omega
  · have := List.sizeOf_lt_of_mem hw
    simp only [Value.list.sizeOf_spec]
    omega

/-! ## Bodies -/

/-- A body whose attributes and blocks are the given ones, but for their lines. -/
structure Body.Like (body : Body) (attributes : List Attribute) (blocks : List Block) : Prop where
  attributes : body.attributes.map Attribute.unplaced = attributes.map Attribute.unplaced
  blocks : body.blocks.map Block.unplaced = blocks.map Block.unplaced

theorem Body.like_empty : Body.empty.Like [] [] :=
  ⟨rfl, rfl⟩

section Like

variable {body : Body} {attributes : List Attribute} {blocks : List Block}
  (h : body.Like attributes blocks)
include h

theorem Body.Like.attr {a found : Attribute} (hfound : found.unplaced = a.unplaced) :
    (Body.cons (.attr found) body).Like (a :: attributes) blocks := by
  refine ⟨?_, h.blocks⟩
  rw [List.map_cons, ← hfound, ← h.attributes]
  rfl

theorem Body.Like.block {b found : Block} (hfound : found.unplaced = b.unplaced) :
    (Body.cons (.block found) body).Like attributes (b :: blocks) := by
  refine ⟨h.attributes, ?_⟩
  rw [List.map_cons, ← hfound, ← h.blocks]
  rfl

end Like

/-- A block that is spelled, but for lines, by its tokens, wherever they stand. -/
def Block.Spelled (b : Block) : Prop :=
  ∀ ts : List Placed, ts.map Placed.token = b.tokens →
    ∃ found, SpellsItem ts (.block found) ∧ found.unplaced = b.unplaced

/-- The tokens of the items of a body. -/
def itemTokens (attributes : List Attribute) (blocks : List Block) : List Token :=
  attributes.flatMap Attribute.tokens ++ Block.tokensOf blocks

theorem spellsItem_attribute {a : Attribute} (ha : a.value.isReadable = true) {ts : List Placed}
    (hts : ts.map Placed.token = a.tokens) :
    ∃ line, SpellsItem ts (.attr ⟨a.name, a.value, line⟩) := by
  obtain ⟨line, others, rfl, hothers⟩ := map_token_eq_cons hts
  obtain ⟨place, inner, rfl, hinner⟩ := map_token_eq_cons hothers
  exact ⟨line, .attr (hinner ▸ a.value.spells ha)⟩

theorem map_label?_text {ls : List Placed} {labels : List String}
    (h : ls.map Placed.token = labels.map .text) : ls.map label? = labels.map some := by
  induction labels generalizing ls with
  | nil =>
      rw [List.map_eq_nil_iff.mp h]
      rfl
  | cons label labels ih =>
      obtain ⟨line, others, rfl, hothers⟩ := map_token_eq_cons h
      rw [List.map_cons, List.map_cons, ih hothers]
      rfl

section Body

variable {attributes : List Attribute} {blocks : List Block}
  (hattributes : ∀ a ∈ attributes, a.value.isReadable = true)
  (hblocks : ∀ b ∈ blocks, b.Spelled) {ts : List Placed}
  (hts : ts.map Placed.token = itemTokens attributes blocks)
include hattributes hblocks hts

theorem spellsBody_itemTokens : ∃ body, SpellsBody ts body ∧ body.Like attributes blocks := by
  induction attributes generalizing ts with
  | cons a attributes ih =>
      obtain ⟨ha, hattributes⟩ := List.forall_mem_cons.mp hattributes
      rw [itemTokens, List.flatMap_cons, List.append_assoc] at hts
      obtain ⟨front, back, rfl, hfront, hback⟩ := List.map_eq_append_iff.mp hts
      obtain ⟨line, hitem⟩ := spellsItem_attribute ha hfront
      obtain ⟨body, hbody, hlike⟩ := ih hattributes hback
      exact ⟨_, .cons hitem hbody, hlike.attr rfl⟩
  | nil =>
      induction blocks generalizing ts with
      | cons b blocks ih =>
          obtain ⟨hb, hblocks⟩ := List.forall_mem_cons.mp hblocks
          rw [itemTokens, List.flatMap_nil, List.nil_append, Block.tokensOf] at hts
          obtain ⟨front, back, rfl, hfront, hback⟩ := List.map_eq_append_iff.mp hts
          obtain ⟨found, hitem, hfound⟩ := hb front hfront
          obtain ⟨body, hbody, hlike⟩ := ih hblocks hback
          exact ⟨_, .cons hitem hbody, hlike.block hfound⟩
      | nil =>
          rw [List.map_eq_nil_iff.mp hts]
          exact ⟨_, .nil, Body.like_empty⟩

end Body

/-- Every readable block is spelled by its tokens. -/
theorem Block.spells (b : Block) (hb : b.isReadable = true) : b.Spelled := by
  intro ts hts
  match b with
  | ⟨kind, labels, attributes, blocks, _⟩ =>
      simp only [Block.isReadable, Bool.and_eq_true, List.all_eq_true, Block.areReadable_iff] at hb
      have hblocks : ∀ inner ∈ blocks, inner.Spelled := fun inner hinner =>
        inner.spells (hb.2 inner hinner)
      -- the kind, the labels, the opening brace, the items and the closing brace
      obtain ⟨line, inner, rfl, hinner⟩ := map_token_eq_cons hts
      obtain ⟨front, behind, rfl, hfront, hbehind⟩ := List.map_eq_append_iff.mp hinner
      obtain ⟨place, body, rfl, hbody⟩ := map_token_eq_cons hbehind
      rw [← List.append_assoc] at hbody
      obtain ⟨items, closing, rfl, hitems, hclosing⟩ := List.map_eq_append_iff.mp hbody
      obtain ⟨close, after, rfl, hafter⟩ := map_token_eq_cons hclosing
      obtain ⟨found, hfound, hlike⟩ := spellsBody_itemTokens hb.1 hblocks hitems
      refine ⟨⟨kind, labels, found.attributes, found.blocks, line⟩, ?_, ?_⟩
      · rw [List.map_eq_nil_iff.mp hafter]
        exact .block (map_label?_text hfront) hfound
      · simp only [Block.unplaced, Block.allUnplaced_eq_map, hlike.attributes, hlike.blocks]
termination_by sizeOf b
decreasing_by
  have := List.sizeOf_lt_of_mem hinner
  simp only [Block.mk.sizeOf_spec]
  omega

/-- A document of readable items is read as a body of these items, on whatever lines they
stand. -/
theorem bodyOfTokens_itemTokens {attributes : List Attribute} {blocks : List Block}
    (hattributes : ∀ a ∈ attributes, a.value.isReadable = true)
    (hblocks : ∀ b ∈ blocks, b.isReadable = true) {ts : List Placed}
    (hts : ts.map Placed.token = itemTokens attributes blocks) :
    ∃ body, bodyOfTokens ts = .ok body ∧ body.Like attributes blocks := by
  obtain ⟨body, hbody, hlike⟩ :=
    spellsBody_itemTokens hattributes (fun b hb => b.spells (hblocks b hb)) hts
  exact ⟨body, bodyOfTokens_eq_ok_iff.mpr hbody, hlike⟩

end ProjectHub.Document
