import Mathlib.Data.List.Pairwise
import ProjectHub.Proofs.Document.Canonical
import ProjectHub.Proofs.Document.Derivation

/-!
# Repetitions in documents

A document may declare the primary key of a table more than once, and give an
attribute of a column, an index or a primary key more than once. Neither is an
error. Of primary keys the last counts, of lists of columns the first, and of
other attributes the last. So a document describes what it describes without its
repetitions, and it is refused only if a repetition cannot be read or the
document without them is refused.
-/

namespace ProjectHub

/-! ## Folds in which later items overrule earlier ones -/

section Fold

variable {α β ε σ : Type}

theorem bind_iff_of_left {x y : Except ε α} {P : Prop} (h : ∀ a, x = .ok a ↔ P ∧ y = .ok a)
    (f : α → Except ε β) (b : β) : x >>= f = .ok b ↔ P ∧ y >>= f = .ok b := by
  simp only [bind_eq_ok_iff, h, and_assoc, exists_and_left]

theorem bind_iff_of_right {f g : α → Except ε β} {P : Prop} {b : β}
    (h : ∀ a, f a = .ok b ↔ P ∧ g a = .ok b) (x : Except ε α) :
    x >>= f = .ok b ↔ P ∧ x >>= g = .ok b := by
  simp only [bind_eq_ok_iff, h, and_left_comm, exists_and_left]

variable {f : σ → α → Except ε σ}

/-- A fold over items of which each counts for another if something holds of it. -/
theorem foldlM_map_iff {g : α → α} {P : α → Prop}
    (hstep : ∀ s a t, f s a = .ok t ↔ P a ∧ f s (g a) = .ok t) {l : List α} {s t : σ} :
    l.foldlM f s = .ok t ↔ (∀ a ∈ l, P a) ∧ (l.map g).foldlM f s = .ok t := by
  induction l generalizing s with
  | nil => simp
  | cons a l ih =>
      rw [foldlM_cons_eq_ok_iff, List.map_cons, foldlM_cons_eq_ok_iff, List.forall_mem_cons]
      constructor
      · rintro ⟨m, hfirst, hrest⟩
        obtain ⟨ha, hfirst⟩ := (hstep s a m).mp hfirst
        obtain ⟨hl, hrest⟩ := ih.mp hrest
        exact ⟨⟨ha, hl⟩, m, hfirst, hrest⟩
      · rintro ⟨⟨ha, hl⟩, m, hfirst, hrest⟩
        exact ⟨m, (hstep s a m).mpr ⟨ha, hfirst⟩, ih.mpr ⟨hl, hrest⟩⟩

/-- Steps of which some undo others: an item that is not apart from a later one does not count. -/
structure Overruling (f : σ → α → Except ε σ) (Apart : α → α → Prop) : Prop where
  /-- If two items are apart, so is one of them from any third. -/
  third : ∀ {a b c}, Apart a c → Apart a b ∨ Apart b c
  self : ∀ {a b}, ¬Apart a b → ¬Apart a a
  /-- Whether such an item is taken in does not depend on what was said before. -/
  read : ∀ {s s₁ a}, ¬Apart a a → f s a = .ok s₁ → ∀ s', ∃ t, f s' a = .ok t
  overrule : ∀ {s s₁ a b t}, ¬Apart a b → f s a = .ok s₁ → (f s₁ b = .ok t ↔ f s b = .ok t)
  /-- Before an item that is apart it counts as much as behind it. -/
  swap : ∀ {s s₁ a b t}, ¬Apart a a → Apart a b → f s a = .ok s₁ →
    (f s₁ b = .ok t ↔ ∃ s₂, f s b = .ok s₂ ∧ f s₂ a = .ok t)

namespace Overruling

variable {Apart : α → α → Prop} (h : Overruling f Apart)
include h

/-- An item that a later one overrules need not have been there. -/
theorem foldlM_iff {a : α} {l : List α} (hl : ∃ b ∈ l, ¬Apart a b) {s s₁ t : σ}
    (ha : f s a = .ok s₁) : l.foldlM f s₁ = .ok t ↔ l.foldlM f s = .ok t := by
  induction l generalizing s s₁ with
  | nil =>
      obtain ⟨b, hb, -⟩ := hl
      cases hb
  | cons b l ih =>
      simp only [foldlM_cons_eq_ok_iff]
      by_cases hab : Apart a b
      · have hself : ¬Apart a a := by
          obtain ⟨c, -, hc⟩ := hl
          exact h.self hc
        have hl : ∃ b ∈ l, ¬Apart a b := by
          obtain ⟨c, hc, hac⟩ := hl
          refine ⟨c, (List.mem_cons.mp hc).resolve_left ?_, hac⟩
          rintro rfl
          exact hac hab
        constructor
        · rintro ⟨m, hstep, hrest⟩
          obtain ⟨s₂, hb, ha₂⟩ := (h.swap hself hab ha).mp hstep
          exact ⟨s₂, hb, (ih hl ha₂).mp hrest⟩
        · rintro ⟨s₂, hb, hrest⟩
          obtain ⟨m, ha₂⟩ := h.read hself ha s₂
          exact ⟨m, (h.swap hself hab ha).mpr ⟨s₂, hb, ha₂⟩, (ih hl ha₂).mpr hrest⟩
      · simp only [h.overrule hab ha]

variable [DecidableRel Apart]

/-- Items lead where those lead that nothing overrules, if the others can be taken in. -/
theorem foldlM_pwFilter_iff {l : List α} {s t : σ} : l.foldlM f s = .ok t ↔
    (∀ a ∈ l, ¬Apart a a → ∃ s₁, f s a = .ok s₁) ∧ (l.pwFilter Apart).foldlM f s = .ok t := by
  induction l generalizing s with
  | nil => simp
  | cons a l ih =>
      have hiff : (∀ b ∈ l.pwFilter Apart, Apart a b) ↔ ∀ b ∈ l, Apart a b :=
        @List.forall_mem_pwFilter α Apart _ h.third a l
      rw [List.forall_mem_cons, foldlM_cons_eq_ok_iff]
      by_cases hapart : ∀ b ∈ l, Apart a b
      · rw [List.pwFilter_cons_of_pos (hiff.mpr hapart), foldlM_cons_eq_ok_iff]
        constructor
        · rintro ⟨m, ha, hrest⟩
          obtain ⟨hread, hrest⟩ := ih.mp hrest
          refine ⟨⟨fun _ => ⟨m, ha⟩, fun b hb hself => ?_⟩, m, ha, hrest⟩
          obtain ⟨s₁, hs₁⟩ := hread b hb hself
          exact h.read hself hs₁ s
        · rintro ⟨⟨-, hread⟩, m, ha, hrest⟩
          refine ⟨m, ha, ih.mpr ⟨fun b hb hself => ?_, hrest⟩⟩
          obtain ⟨s₁, hs₁⟩ := hread b hb hself
          exact h.read hself hs₁ m
      · have hkept : ¬∀ b ∈ l.pwFilter Apart, Apart a b := fun hall => hapart (hiff.mp hall)
        push Not at hapart
        obtain ⟨b, hb, hab⟩ := hapart
        have hself : ¬Apart a a := h.self hab
        rw [List.pwFilter_cons_of_neg hkept, forall_prop_of_true hself, and_assoc, ← ih]
        constructor
        · rintro ⟨m, ha, hrest⟩
          exact ⟨⟨m, ha⟩, (h.foldlM_iff ⟨b, hb, hab⟩ ha).mp hrest⟩
        · rintro ⟨⟨m, ha⟩, hrest⟩
          exact ⟨m, ha, (h.foldlM_iff ⟨b, hb, hab⟩ ha).mpr hrest⟩

end Overruling

end Fold

/-! ## Documents without repetitions -/

namespace Document

/-- The attributes with the first list of columns only. -/
def firstColumns : List Attribute → List Attribute
  | [] => []
  | a :: rest =>
    if a.name = "columns" then a :: rest.filter fun b => b.name ≠ "columns"
    else a :: firstColumns rest

/-- The attributes of which no later one has the name. -/
def lastAttributes (attributes : List Attribute) : List Attribute :=
  attributes.pwFilter fun a b => a.name ≠ b.name

/-- Whether not both of two blocks declare a primary key. -/
def Block.KeysApart (a b : Block) : Prop :=
  ¬(a.kind = "primary_key" ∧ b.kind = "primary_key")

instance : DecidableRel Block.KeysApart :=
  fun _ _ => inferInstanceAs (Decidable ¬_)

namespace Block

/-- A block inside a table with the attributes that count. -/
def settled (block : Block) : Block :=
  if block.kind = "column" then { block with attributes := lastAttributes block.attributes }
  else if block.kind = "index" ∨ block.kind = "primary_key" then
    { block with attributes := lastAttributes (firstColumns block.attributes) }
  else block

/-- The block of a table with the blocks and attributes that count. -/
def settledTable (block : Block) : Block :=
  { block with blocks := (block.blocks.map settled).pwFilter KeysApart }

/-- Whether a block inside a table gives no attribute twice. -/
def Once (block : Block) : Prop :=
  block.kind ∈ ["column", "index", "primary_key"] →
    block.attributes.Pairwise fun a b => a.name ≠ b.name

/-- Whether the block of a table has no second primary key, and no attribute twice in a block. -/
structure TableOnce (block : Block) : Prop where
  key : block.blocks.Pairwise KeysApart
  attributes : ∀ inner ∈ block.blocks, inner.Once

/-- Whether all can be read in a block inside a table that may be repeated: each attribute of a
column or an index, and the columns of a primary key. -/
structure Readable (block : Block) : Prop where
  column : block.kind = "column" → ∀ a ∈ block.attributes,
    ∃ facts, ({} : ColumnFacts).add a = .ok facts
  index : block.kind = "index" → ∀ a ∈ block.attributes,
    ∃ unique, uniqueOfAttribute false a = .ok unique
  key : block.kind = "primary_key" → ∃ columns, columnsOfBlock block = .ok columns

end Block

namespace Body

/-- The body with the definitions that count. -/
def settled (body : Body) : Body :=
  { body with
    blocks := body.blocks.map fun block => if block.kind = "table" then block.settledTable else block }

/-- Whether nothing is repeated in the tables of a body. -/
def Once (body : Body) : Prop :=
  ∀ block ∈ body.blocks, block.kind = "table" → block.TableOnce

/-- Whether all can be read that may be repeated in the tables of a body. -/
def Readable (body : Body) : Prop :=
  ∀ block ∈ body.blocks, block.kind = "table" → ∀ inner ∈ block.blocks, inner.Readable

end Body

theorem foldlM_lastAttributes_iff {σ : Type} {f : σ → Attribute → Except Error σ}
    (h : Overruling f fun a b => a.name ≠ b.name) {attributes : List Attribute} {s t : σ} :
    attributes.foldlM f s = .ok t ↔
      (∀ a ∈ attributes, ∃ s₁, f s a = .ok s₁) ∧ (lastAttributes attributes).foldlM f s = .ok t := by
  rw [h.foldlM_pwFilter_iff]
  simp only [ne_eq, not_true_eq_false, not_false_eq_true, true_imp_iff]
  rfl

/-! ### Columns -/

theorem overruling_add : Overruling ColumnFacts.add fun a b : Attribute => a.name ≠ b.name where
  third hac := (hac.ne_or_ne _).imp_right Ne.symm
  self := by simp
  read := by
    intro s s₁ a _ h s'
    simp only [ColumnFacts.add_eq_ok_iff] at h ⊢
    rcases h with ⟨hname, v, hv, -⟩ | ⟨hname, v, hv, -⟩ | ⟨hname, v, hv, -⟩ | ⟨hname, -⟩
    · exact ⟨_, .inl ⟨hname, v, hv, rfl⟩⟩
    · exact ⟨_, .inr (.inl ⟨hname, v, hv, rfl⟩)⟩
    · exact ⟨_, .inr (.inr (.inl ⟨hname, v, hv, rfl⟩))⟩
    · exact ⟨_, .inr (.inr (.inr ⟨hname, rfl⟩))⟩
  overrule := by
    intro s s₁ a b t hab h
    simp only [ColumnFacts.add_eq_ok_iff, ← not_not.mp hab] at h ⊢
    rcases h with ⟨hname, v, -, rfl⟩ | ⟨hname, v, -, rfl⟩ | ⟨hname, v, -, rfl⟩ | ⟨hname, rfl⟩ <;>
      simp [hname]
  swap := by
    intro s s₁ a b t _ hab h
    simp only [ColumnFacts.add_eq_ok_iff] at h ⊢
    rcases h with ⟨hname, v, hv, rfl⟩ | ⟨hname, v, hv, rfl⟩ | ⟨hname, v, hv, rfl⟩ |
      ⟨hname | hname, rfl⟩
    -- the other attribute says something of another fact
    case inl | inr.inl | inr.inr.inl =>
      rw [hname] at hab
      simp [hname, hv, hab.symm, or_and_right, exists_or, and_assoc]
    case inr.inr.inr.inl | inr.inr.inr.inr => simp [hname]

/-! ### Keys and indexes -/

/-- What an attribute says of whether an index is unique. -/
theorem uniqueOfAttribute_eq_ok_iff {unique next : Bool} {a : Attribute} :
    uniqueOfAttribute unique a = .ok next ↔
      (a.name = "unique" ∧ a.value = .bool next) ∨
      ((a.name = "columns" ∨ a.name = "comment") ∧ unique = next) := by
  unfold uniqueOfAttribute
  split
  · rename_i hname hvalue
    simp [hname, hvalue]
  · rename_i hname
    simp [hname]
  · rename_i hname
    simp [hname]
  · rename_i hcolumns hcomment hunique
    refine iff_of_false nofun ?_
    rintro (⟨hname, hvalue⟩ | ⟨hname | hname, -⟩)
    · exact hunique next hname hvalue
    · exact hcolumns hname
    · exact hcomment hname

theorem overruling_uniqueOfAttribute :
    Overruling uniqueOfAttribute fun a b : Attribute => a.name ≠ b.name where
  third hac := (hac.ne_or_ne _).imp_right Ne.symm
  self := by simp
  read := by
    intro s s₁ a _ h s'
    simp only [uniqueOfAttribute_eq_ok_iff] at h ⊢
    rcases h with ⟨hname, hvalue⟩ | ⟨hname, -⟩
    · exact ⟨s₁, .inl ⟨hname, hvalue⟩⟩
    · exact ⟨s', .inr ⟨hname, rfl⟩⟩
  overrule := by
    intro s s₁ a b t hab h
    simp only [uniqueOfAttribute_eq_ok_iff, ← not_not.mp hab] at h ⊢
    rcases h with ⟨hname, -⟩ | ⟨-, rfl⟩
    · simp [hname]
    · rfl
  swap := by
    intro s s₁ a b t _ hab h
    simp only [uniqueOfAttribute_eq_ok_iff] at h ⊢
    rcases h with ⟨hname, hvalue⟩ | ⟨hname | hname, rfl⟩
    · rw [hname] at hab
      simp [hname, hvalue, hab.symm]
    · simp [hname]
    · simp [hname]

theorem foldlM_firstColumns (attributes : List Attribute) (unique : Bool) :
    (firstColumns attributes).foldlM uniqueOfAttribute unique =
      attributes.foldlM uniqueOfAttribute unique := by
  -- lists of columns say nothing of uniqueness
  have hskip : (fun (unique : Bool) (a : Attribute) =>
      if decide (a.name ≠ "columns") = true then uniqueOfAttribute unique a else pure unique) =
        uniqueOfAttribute := by
    funext unique a
    split
    · rfl
    · rename_i hname
      have hname : a.name = "columns" := by simpa using hname
      exact (uniqueOfAttribute_eq_ok_iff.mpr (.inr ⟨.inl hname, rfl⟩)).symm
  induction attributes generalizing unique with
  | nil => rfl
  | cons a rest ih =>
      unfold firstColumns
      split
      · rw [List.foldlM_cons, List.foldlM_cons]
        simp only [List.foldlM_filter, hskip]
      · rw [List.foldlM_cons, List.foldlM_cons]
        simp only [ih]

theorem find?_firstColumns (attributes : List Attribute) :
    ((firstColumns attributes).find? fun a => a.name = "columns") =
      attributes.find? fun a => a.name = "columns" := by
  induction attributes with
  | nil => rfl
  | cons a rest ih =>
      unfold firstColumns
      split
      · rename_i hname
        simp [hname]
      · rename_i hname
        simp [hname, ih]

theorem firstColumns_sublist (attributes : List Attribute) :
    (firstColumns attributes).Sublist attributes := by
  induction attributes with
  | nil => exact .slnil
  | cons a rest ih =>
      unfold firstColumns
      split
      · exact List.filter_sublist.cons_cons a
      · exact ih.cons_cons a

/-- No two lists of columns are left. -/
theorem pairwise_firstColumns (attributes : List Attribute) :
    (firstColumns attributes).Pairwise fun a b => a.name = "columns" → b.name ≠ "columns" := by
  induction attributes with
  | nil => exact .nil
  | cons a rest ih =>
      unfold firstColumns
      split
      · have hother : ∀ b ∈ rest.filter fun b => b.name ≠ "columns", b.name ≠ "columns" :=
          fun b hb => by simpa using (List.mem_filter.mp hb).2
        refine List.pairwise_cons.mpr ⟨fun b hb _ => hother b hb, ?_⟩
        exact List.pairwise_of_forall_mem_list fun b _ c hc _ => hother c hc
      · rename_i hname
        exact List.pairwise_cons.mpr ⟨fun b _ h => absurd h hname, ih⟩

theorem find?_lastAttributes {attributes : List Attribute}
    (h : attributes.Pairwise fun a b => a.name = "columns" → b.name ≠ "columns") :
    ((lastAttributes attributes).find? fun a => a.name = "columns") =
      attributes.find? fun a => a.name = "columns" := by
  induction attributes with
  | nil => rfl
  | cons a rest ih =>
      obtain ⟨hfirst, hrest⟩ := List.pairwise_cons.mp h
      have hmore := ih hrest
      unfold lastAttributes at hmore ⊢
      by_cases hname : a.name = "columns"
      · have hkept : ∀ b ∈ rest.pwFilter fun a b => a.name ≠ b.name, a.name ≠ b.name := by
          intro b hb same
          exact hfirst b (List.pwFilter_subset rest hb) hname (same.symm.trans hname)
        rw [List.pwFilter_cons_of_pos hkept]
        simp [hname]
      · by_cases hkept : ∀ b ∈ rest.pwFilter fun a b => a.name ≠ b.name, a.name ≠ b.name
        · rw [List.pwFilter_cons_of_pos hkept]
          simpa [hname] using hmore
        · rw [List.pwFilter_cons_of_neg hkept]
          simpa [hname] using hmore

namespace Block

variable {block : Block}

@[simp] theorem kind_settled (block : Block) : block.settled.kind = block.kind := by
  unfold settled
  split
  · rfl
  · split <;> rfl

theorem settled_column (h : block.kind = "column") :
    block.settled = { block with attributes := lastAttributes block.attributes } :=
  if_pos h

theorem settled_key (h : block.kind = "index" ∨ block.kind = "primary_key") :
    block.settled =
      { block with attributes := lastAttributes (firstColumns block.attributes) } := by
  have hnot : block.kind ≠ "column" := by
    rcases h with h | h <;> simp [h]
  rw [settled, if_neg hnot, if_pos h]

theorem columnsOfBlock_settled (h : block.kind = "index" ∨ block.kind = "primary_key") :
    columnsOfBlock block.settled = columnsOfBlock block := by
  rw [settled_key h]
  unfold columnsOfBlock
  simp only [find?_lastAttributes (pairwise_firstColumns _), find?_firstColumns]

end Block

/-! ### What settles and what stays -/

theorem firstColumns_eq_self {attributes : List Attribute}
    (h : attributes.Pairwise fun a b => a.name ≠ b.name) :
    firstColumns attributes = attributes := by
  induction attributes with
  | nil => rfl
  | cons a rest ih =>
      obtain ⟨hfirst, hrest⟩ := List.pairwise_cons.mp h
      unfold firstColumns
      split
      · rename_i hname
        refine congrArg (a :: ·) (List.filter_eq_self.mpr fun b hb => ?_)
        simpa [hname] using (hfirst b hb).symm
      · exact congrArg (a :: ·) (ih hrest)

theorem Block.once_settled (block : Block) : block.settled.Once := by
  intro hkind
  simp only [kind_settled, List.mem_cons, List.not_mem_nil, or_false] at hkind
  rcases hkind with hkind | hkind
  · rw [settled_column hkind]
    exact List.pairwise_pwFilter _
  · rw [settled_key hkind]
    exact List.pairwise_pwFilter _

theorem Block.settled_eq_self {block : Block} (h : block.Once) : block.settled = block := by
  unfold settled
  split
  · rename_i hkind
    have hpairwise := h (by simp [hkind])
    rw [lastAttributes, List.pwFilter_eq_self.mpr hpairwise]
    cases block
    rfl
  · split
    · rename_i hkind
      have hpairwise := h (List.mem_cons_of_mem _ (by simpa using hkind))
      rw [firstColumns_eq_self hpairwise, lastAttributes, List.pwFilter_eq_self.mpr hpairwise]
      cases block
      rfl
    · rfl

theorem Block.tableOnce_settledTable (block : Block) : block.settledTable.TableOnce where
  key := List.pairwise_pwFilter _
  attributes := by
    intro inner hinner
    obtain ⟨inner, -, rfl⟩ := List.mem_map.mp (List.pwFilter_subset _ hinner)
    exact inner.once_settled

theorem Block.settledTable_eq_self {block : Block} (h : block.TableOnce) :
    block.settledTable = block := by
  have hinner : block.blocks.map settled = block.blocks :=
    (List.map_congr_left fun inner hmem => settled_eq_self (h.attributes inner hmem)).trans
      (List.map_id _)
  rw [settledTable, hinner, List.pwFilter_eq_self.mpr h.key]
  cases block
  rfl

theorem Body.once_settled (body : Body) : body.settled.Once := by
  intro block hblock htable
  obtain ⟨block, -, rfl⟩ := List.mem_map.mp hblock
  by_cases hkind : block.kind = "table"
  · rw [if_pos hkind]
    exact block.tableOnce_settledTable
  · rw [if_neg hkind] at htable
    contradiction

/-- Nothing is taken out of a body just if nothing is repeated in it. -/
theorem Body.settled_eq_self_iff {body : Body} : body.settled = body ↔ body.Once := by
  constructor
  · intro h
    rw [← h]
    exact body.once_settled
  · intro h
    have hblocks : (body.blocks.map fun block =>
        if block.kind = "table" then block.settledTable else block) = body.blocks := by
      refine (List.map_congr_left fun block hblock => ?_).trans (List.map_id _)
      split
      · rename_i hkind
        exact Block.settledTable_eq_self (h block hblock hkind)
      · rfl
    rw [settled, hblocks]

end Document

open Document

section Inner

variable {block : Block}

theorem Column.ofBlock_settled_iff (hkind : block.kind = "column") {column : Column} :
    Column.ofBlock block = .ok column ↔
      (∀ a ∈ block.attributes, ∃ facts, ({} : ColumnFacts).add a = .ok facts) ∧
        Column.ofBlock block.settled = .ok column := by
  rw [Block.settled_column hkind]
  unfold ofBlock
  refine bind_iff_of_right (fun name => ?_) _
  dsimp only
  split
  · exact iff_of_false nofun fun h => nomatch h.2
  · refine bind_iff_of_left (fun facts => ?_) _ _
    exact foldlM_lastAttributes_iff overruling_add

theorem Index.ofBlock_settled_iff (hkind : block.kind = "index") {index : Index} :
    Index.ofBlock block = .ok index ↔
      (∀ a ∈ block.attributes, ∃ unique, uniqueOfAttribute false a = .ok unique) ∧
        Index.ofBlock block.settled = .ok index := by
  unfold ofBlock
  rw [Block.columnsOfBlock_settled (.inl hkind), Block.settled_key (.inl hkind)]
  refine bind_iff_of_right (fun name => ?_) _
  refine bind_iff_of_left (fun unique => ?_) _ _
  constructor
  · intro hall
    refine ⟨((foldlM_lastAttributes_iff overruling_uniqueOfAttribute).mp hall).1, ?_⟩
    rw [← foldlM_firstColumns] at hall
    exact ((foldlM_lastAttributes_iff overruling_uniqueOfAttribute).mp hall).2
  · rintro ⟨hread, hlast⟩
    rw [← foldlM_firstColumns]
    exact (foldlM_lastAttributes_iff overruling_uniqueOfAttribute).mpr
      ⟨fun a ha => hread a ((firstColumns_sublist _).subset ha), hlast⟩

end Inner

namespace Table

theorem addBlock_settled_iff {t next : Table} {block : Block} :
    t.addBlock block = .ok next ↔ block.Readable ∧ t.addBlock block.settled = .ok next := by
  simp only [addBlock_eq_ok_iff, Block.kind_settled]
  constructor
  · rintro (⟨hkind, column, hcolumn, h⟩ | ⟨hkind, columns, hcolumns, h⟩ | ⟨hkind, index, hindex, h⟩)
    · obtain ⟨hread, hcolumn⟩ := (Column.ofBlock_settled_iff hkind).mp hcolumn
      exact ⟨⟨fun _ => hread, by simp [hkind], by simp [hkind]⟩, .inl ⟨hkind, column, hcolumn, h⟩⟩
    · refine ⟨⟨by simp [hkind], by simp [hkind], fun _ => ⟨columns, hcolumns⟩⟩, .inr (.inl ?_)⟩
      exact ⟨hkind, columns, (Block.columnsOfBlock_settled (.inr hkind)).trans hcolumns, h⟩
    · obtain ⟨hread, hindex⟩ := (Index.ofBlock_settled_iff hkind).mp hindex
      exact ⟨⟨by simp [hkind], fun _ => hread, by simp [hkind]⟩,
        .inr (.inr ⟨hkind, index, hindex, h⟩)⟩
  · rintro ⟨hread, ⟨hkind, column, hcolumn, h⟩ | ⟨hkind, columns, hcolumns, h⟩ |
      ⟨hkind, index, hindex, h⟩⟩
    · exact .inl ⟨hkind, column,
        (Column.ofBlock_settled_iff hkind).mpr ⟨hread.column hkind, hcolumn⟩, h⟩
    · rw [Block.columnsOfBlock_settled (.inr hkind)] at hcolumns
      exact .inr (.inl ⟨hkind, columns, hcolumns, h⟩)
    · exact .inr (.inr ⟨hkind, index,
        (Index.ofBlock_settled_iff hkind).mpr ⟨hread.index hkind, hindex⟩, h⟩)

theorem addBlock_key_eq_ok_iff {t next : Table} {block : Block}
    (hkind : block.kind = "primary_key") : t.addBlock block = .ok next ↔
      ∃ columns, columnsOfBlock block = .ok columns ∧ { t with primaryKey := columns } = next := by
  simp [addBlock_eq_ok_iff, hkind]

theorem overruling_addBlock : Overruling addBlock Block.KeysApart where
  third := by
    unfold Block.KeysApart
    tauto
  self := by
    unfold Block.KeysApart
    tauto
  read := by
    intro t next block hself h t'
    obtain ⟨hkind, -⟩ := not_not.mp hself
    obtain ⟨columns, hcolumns, -⟩ := (addBlock_key_eq_ok_iff hkind).mp h
    exact ⟨_, (addBlock_key_eq_ok_iff hkind).mpr ⟨columns, hcolumns, rfl⟩⟩
  overrule := by
    intro t next block other last hboth h
    obtain ⟨hkind, hother⟩ := not_not.mp hboth
    obtain ⟨columns, -, rfl⟩ := (addBlock_key_eq_ok_iff hkind).mp h
    rw [addBlock_key_eq_ok_iff hother, addBlock_key_eq_ok_iff hother]
  swap := by
    intro t next block other last hself hapart h
    obtain ⟨hkind, -⟩ := not_not.mp hself
    have hother : other.kind ≠ "primary_key" := fun hother => hapart ⟨hkind, hother⟩
    obtain ⟨columns, hcolumns, rfl⟩ := (addBlock_key_eq_ok_iff hkind).mp h
    -- a column or an index is added to the same columns and indexes
    have hsame (name : String) :
        ({ t with primaryKey := columns } : Table).hasColumn name = t.hasColumn name := rfl
    simp [addBlock_eq_ok_iff, hcolumns, hother, hsame, hkind, or_and_right, exists_or, and_assoc]

theorem ofBlock_settledTable_iff {t : Table} {block : Block} : Table.ofBlock block = .ok t ↔
    (∀ inner ∈ block.blocks, inner.Readable) ∧ Table.ofBlock block.settledTable = .ok t := by
  unfold ofBlock
  refine bind_iff_of_right (fun name => bind_iff_of_right (fun _ =>
    bind_iff_of_left (fun built => ?_) _ _) _) _
  rw [foldlM_map_iff fun s inner next => addBlock_settled_iff,
    overruling_addBlock.foldlM_pwFilter_iff]
  refine and_congr_right fun hread => and_iff_right ?_
  intro inner hinner hself
  obtain ⟨inner, hmem, rfl⟩ := List.mem_map.mp hinner
  obtain ⟨hkey, -⟩ := not_not.mp hself
  have hkind : inner.kind = "primary_key" := (Block.kind_settled inner).symm.trans hkey
  obtain ⟨columns, hcolumns⟩ := (hread inner hmem).key hkind
  exact ⟨_, (addBlock_key_eq_ok_iff hkey).mpr
    ⟨columns, (Block.columnsOfBlock_settled (.inr hkind)).trans hcolumns, rfl⟩⟩

end Table

namespace Realm

theorem addBlock_settled_iff {r next : Realm} {block : Block} : r.addBlock block = .ok next ↔
    (block.kind = "table" → ∀ inner ∈ block.blocks, inner.Readable) ∧
      r.addBlock (if block.kind = "table" then block.settledTable else block) = .ok next := by
  by_cases hkind : block.kind = "table"
  · have hsettled : block.settledTable.kind = "table" := hkind
    simp only [hkind, true_imp_iff, if_true]
    unfold addBlock
    simp only [hkind, hsettled]
    exact bind_iff_of_left (fun t => Table.ofBlock_settledTable_iff) _ _
  · simp [hkind]

theorem ofBody_settled_iff {body : Body} {r : Realm} :
    ofBody body = .ok r ↔ body.Readable ∧ ofBody body.settled = .ok r := by
  unfold ofBody
  dsimp only [Body.settled]
  split
  · exact iff_of_false nofun fun h => nomatch h.2
  · exact foldlM_map_iff fun s block next => addBlock_settled_iff

/-- A document is read just if all can be read that it may repeat and it is read without what later
primary keys and attributes, or earlier lists of columns, overrule; it describes the same realm
then. So a repetition is no error, and what it overrules is not seen in the realm. -/
theorem parse_iff_settled {document : String} {ts : List Placed} {body : Body}
    (hts : tokens document = .ok ts) (hbody : bodyOfTokens ts = .ok body) :
    (∀ r, Realm.parse document = .ok r ↔ body.Readable ∧ ofBody body.settled = .ok r) ∧
      body.settled.Once ∧ (body.settled = body ↔ body.Once) := by
  refine ⟨fun r => ?_, body.once_settled, Body.settled_eq_self_iff⟩
  have hparse : Realm.parse document = ofBody body := by
    unfold Realm.parse
    rw [hts]
    simp only [hbody, bind, Except.bind]
  rw [hparse, ofBody_settled_iff]

end Realm

/-- A column, as it is derived on one line. -/
def Document.columnTree (name : String) (line : Nat) : ItemTree :=
  .block "column" line [.word name line] line line
    (.cons (.attribute "type" line line (.word ⟨"integer", by decide⟩ line)) .nil)

/-- A primary key on one column, as it is derived on one line. -/
def Document.keyTree (column : PlainWord) (line : Nat) : ItemTree :=
  .block "primary_key" line [] line line
    (.cons (.attribute "columns" line line (.list line line (.last (.word column line)))) .nil)

/-- The derivation of a table with two primary keys. -/
def Document.twoKeys : BodyTree :=
  .cons (.block "table" 1 [.word "t" 1] 1 6
    (.cons (columnTree "a" 2) (.cons (columnTree "b" 3)
      (.cons (keyTree ⟨"a", by decide⟩ 4) (.cons (keyTree ⟨"b", by decide⟩ 5) .nil))))) .nil

/-- The table of the second primary key. -/
def Realm.secondKey : Realm where
  tables := .ofList
    [("t", ⟨"t", [.ofType "a" "integer", .ofType "b" "integer"], ["b"], .empty⟩)]

/-- A document that is read although its table has two primary keys: the second counts. -/
theorem Realm.parse_iff_settled_twoKeys : ∃ document ts,
    tokens document = .ok ts ∧ bodyOfTokens ts = .ok twoKeys.body ∧ ¬twoKeys.body.Once ∧
      Realm.parse document = .ok secondKey ∧ ofBody twoKeys.body.settled = .ok secondKey := by
  have hts : tokens ("table t \x7b\n" ++
      "  column a \x7b type = integer \x7d\n" ++
      "  column b \x7b type = integer \x7d\n" ++
      "  primary_key \x7b columns = [a] \x7d\n" ++
      "  primary_key \x7b columns = [b] \x7d\n" ++ "\x7d") = .ok twoKeys.leaves := by
    unfold tokens
    simp only [String.toList_append, -String.reduceAppend, -String.reduceToList]
    decide +kernel
  have hbody := bodyOfTokens_eq_ok_iff.mpr twoKeys.spells
  have hparse := parse_eq_ok_iff.mpr
    ⟨_, _, hts, hbody, (by decide +kernel : ofBody twoKeys.body = .ok secondKey)⟩
  refine ⟨_, _, hts, hbody, fun honce => ?_, hparse, ?_⟩
  · exact absurd (honce _ List.mem_cons_self rfl).key (by decide)
  · exact (((parse_iff_settled hts hbody).1 _).mp hparse).2

end ProjectHub
