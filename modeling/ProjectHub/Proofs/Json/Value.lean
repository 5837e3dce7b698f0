import ProjectHub.Proofs.Json.Numeral

/-!
# Values written are read back

A value without doubles, nested no deeper than its reader goes, is read back from
its text: its integers are of 64 bits and each object has its names in order.
-/

namespace ProjectHub.Json

/-- A value that a reader which enters `depth` levels reads back from its text. -/
inductive Storable : Nat → Json → Prop where
  | null (depth : Nat) : Storable depth .null
  | bool (depth : Nat) (value : Bool) : Storable depth (.bool value)
  | int (depth : Nat) {n : Int} (low : -0x8000000000000000 ≤ n) (high : n < 0x10000000000000000) :
    Storable depth (.number (.int n))
  | text (depth : Nat) (value : String) : Storable depth (.text value)
  | array {depth : Nat} {items : List Json} (h : ∀ item ∈ items, Storable depth item) :
    Storable (depth + 1) (.array items)
  | object {depth : Nat} {members : List (String × Json)}
    (ordered : members.Pairwise fun a b => a.1 < b.1) (h : ∀ m ∈ members, Storable depth m.2) :
    Storable (depth + 1) (.object members)

/-! ## Words -/

private theorem word?_append {c : Char} {cs letters rest : List Char} (value : Source)
    (h : cs = letters ++ rest) :
    (@Source.word? c cs letters value).map Reading.pair = some (value, rest) := by
  subst h
  simp [Source.word?, Source.reading?, Reading.pair]

theorem readAs_null : ReadAs .null .null := by
  intro rest _
  show (readSource (skipSpace ('n' :: ("ull".toList ++ rest)))).map Reading.pair = _
  rw [skipSpace_of_head _ (by decide), readSource]
  simp only [Char.reduceEq, if_false, if_true]
  exact word?_append _ rfl

theorem readAs_bool (value : Bool) : ReadAs (.bool value) (.bool value) := by
  intro rest _
  cases value with
  | true =>
      show (readSource (skipSpace ('t' :: ("rue".toList ++ rest)))).map Reading.pair = _
      rw [skipSpace_of_head _ (by decide), readSource]
      simp only [Char.reduceEq, if_false, if_true]
      exact word?_append _ rfl
  | false =>
      show (readSource (skipSpace ('f' :: ("alse".toList ++ rest)))).map Reading.pair = _
      rw [skipSpace_of_head _ (by decide), readSource]
      simp only [Char.reduceEq, if_false, if_true]
      exact word?_append _ rfl

/-! ## Arrays -/

/-- After its first item an array is closed, or goes on behind a comma. -/
theorem readElements_item {cs afterItem : List Char} {item : Source}
    (hitem : (readSource (skipSpace cs)).map Reading.pair = some (item, afterItem)) :
    (readElements cs).map Reading.pair =
      match skipSpace afterItem with
      | ']' :: after => some ([item], after)
      | ',' :: more => ((readElements more).map Reading.pair).map fun p => (item :: p.1, p.2)
      | _ => none := by
  obtain ⟨item', hitem', hi⟩ := Option.map_eq_some_iff.mp hitem
  cases hi
  rw [readElements]
  simp only [hitem', Option.bind_eq_bind, Option.bind_some]
  split
  · rename_i after h
    simp [h, Reading.pair]
  · rename_i more h
    cases hmore : readElements more <;> simp [h, hmore, Reading.pair]
  · rename_i hclose hcomma
    split
    · rename_i after h
      exact absurd h (hclose after)
    · rename_i more h
      exact absurd h (hcomma more)
    · rfl

/-- The items of an array are read up to its closing bracket. -/
theorem readElements_renderItems {items : List Json} {sources : List Source}
    (h : List.Forall₂ ReadAs items sources) (hne : items ≠ []) (rest : List Char) :
    (readElements ((renderItems items).toList ++ ']' :: rest)).map Reading.pair =
      some (sources, rest) := by
  induction h with
  | nil => exact absurd rfl hne
  | @cons item source items sources hitem hrest ih =>
      cases hrest with
      | nil =>
          rw [renderItems, readElements_item (hitem _ (by simp [EndsValue])),
            skipSpace_of_head _ (by decide)]
          rfl
      | @cons item' source' items sources hitem' hrest =>
          have htext : (renderItems (item :: item' :: items)).toList ++ ']' :: rest =
              item.render.toList ++ ',' :: ((renderItems (item' :: items)).toList ++ ']' :: rest) := by
            simp [renderItems]
          rw [htext, readElements_item (hitem _ (by simp [EndsValue])),
            skipSpace_of_head _ (by decide)]
          simp only
          rw [ih (List.cons_ne_nil _ _)]
          rfl

private theorem readSource_closing (rest : List Char) : readSource (']' :: rest) = none := by
  rw [readSource]
  simp [readNumeral?, readDigits?]

private theorem readSource_bracket {cs : List Char} (h : ∀ after, skipSpace cs ≠ ']' :: after) :
    (readSource ('[' :: cs)).map Reading.pair =
      ((readElements cs).map Reading.pair).map fun p => (.array p.1, p.2) := by
  rw [readSource]
  simp only [Char.reduceEq, if_false, if_true]
  cases readElements cs <;> simp [Reading.pair, Reading.map, Reading.behind]

private theorem readSource_emptyArray (rest : List Char) :
    (readSource ('[' :: ']' :: rest)).map Reading.pair = some (.array [], rest) := by
  have hbracket : skipSpace (']' :: rest) = ']' :: rest := skipSpace_of_head _ (by decide)
  rw [readSource]
  simp only [Char.reduceEq, if_false, if_true]
  split
  · rename_i after hclose
    cases hbracket.symm.trans hclose
    rfl
  · rename_i hno
    exact absurd hbracket (hno rest)

/-- An array of items that are read back is read back. -/
theorem readAs_array {items : List Json} {sources : List Source}
    (h : List.Forall₂ ReadAs items sources) : ReadAs (.array items) (.array sources) := by
  intro rest _
  have htext : (Json.array items).render.toList ++ rest =
      '[' :: ((renderItems items).toList ++ ']' :: rest) := by
    simp [render]
  rw [htext, skipSpace_of_head _ (by decide)]
  cases h with
  | nil => exact readSource_emptyArray rest
  | @cons item source items sources hitem hrest =>
      rw [readSource_bracket, readElements_renderItems (.cons hitem hrest) (List.cons_ne_nil _ _)]
      · rfl
      · -- what is read as an item does not start with a closing bracket
        obtain ⟨tail, htail, hends⟩ : ∃ tail, (renderItems (item :: items)).toList ++ ']' :: rest =
            item.render.toList ++ tail ∧ EndsValue tail := by
          cases items with
          | nil => exact ⟨']' :: rest, rfl, by simp [EndsValue]⟩
          | cons item' items =>
              exact ⟨',' :: ((renderItems (item' :: items)).toList ++ ']' :: rest),
                by simp [renderItems], by simp [EndsValue]⟩
        intro after hafter
        have hread := hitem tail hends
        rw [← htail, hafter, readSource_closing] at hread
        cases hread

/-! ## Members in order -/

/-- A member behind all others is set at the end. -/
theorem insertMember_of_lt {name : String} {value : Json} {members : List (String × Json)}
    (h : ∀ m ∈ members, m.1 < name) : insertMember name value members = members ++ [(name, value)] := by
  induction members with
  | nil => rfl
  | cons m members ih =>
      have hbelow := h m List.mem_cons_self
      rw [insertMember, if_neg (String.lt_asymm hbelow), if_pos hbelow,
        ih fun other hother => h other (List.mem_cons_of_mem _ hother), List.cons_append]

private theorem foldl_insertMember {members all : List (String × Json)}
    (h : (all ++ members).Pairwise fun a b => a.1 < b.1) :
    members.foldl (fun all m => insertMember m.1 m.2 all) all = all ++ members := by
  induction members generalizing all with
  | nil => rw [List.foldl_nil, List.append_nil]
  | cons m members ih =>
      have hlast : ∀ other ∈ all, other.1 < m.1 := fun other hother =>
        (List.pairwise_append.mp h).2.2 other hother m List.mem_cons_self
      rw [List.append_cons] at h ⊢
      rw [List.foldl_cons, insertMember_of_lt hlast, ih h]

theorem ofMembers_of_ordered {members : List (String × Json)}
    (h : members.Pairwise fun a b => a.1 < b.1) : ofMembers members = .object members := by
  have hall : members.foldl (fun all m => insertMember m.1 m.2 all) [] = [] ++ members :=
    foldl_insertMember h
  rw [ofMembers, hall, List.nil_append]

/-! ## Values -/

theorem valuesOf?_of_forall₂ {depth : Nat} {items : List Json} {sources : List Source}
    (h : List.Forall₂ (fun item source => source.value? depth = some item) items sources) :
    valuesOf? depth sources = some items := by
  induction h with
  | nil => rfl
  | cons hitem _ ih =>
      rw [valuesOf?, hitem, ih]
      rfl

theorem membersOf?_of_forall₂ {depth : Nat} {members : List (String × Json)}
    {sources : List (List TextUnit × Source)}
    (h : List.Forall₂ (fun m s => s.1 = m.1.toList.map unitOf ∧ s.2.value? depth = some m.2)
      members sources) : membersOf? depth sources = some members := by
  induction h with
  | nil => rfl
  | @cons m s members sources hm _ ih =>
      obtain ⟨units, source⟩ := s
      obtain ⟨rfl, hvalue⟩ := hm
      rw [membersOf?, textOfUnits?_map_unitOf, hvalue, ih]
      simp

/-- What each item is related to makes a list related to all. -/
theorem exists_forall₂ {α β : Type} {R : α → β → Prop} {items : List α}
    (h : ∀ item ∈ items, ∃ b, R item b) : ∃ bs, List.Forall₂ R items bs := by
  induction items with
  | nil => exact ⟨[], .nil⟩
  | cons item items ih =>
      obtain ⟨b, hb⟩ := h item List.mem_cons_self
      obtain ⟨bs, hbs⟩ := ih fun other hother => h other (List.mem_cons_of_mem _ hother)
      exact ⟨b :: bs, .cons hb hbs⟩

/-- A storable value is read as syntax of which it is the value. -/
theorem Storable.exists_readAs {depth : Nat} {value : Json} (h : value.Storable depth) :
    ∃ source, ReadAs value source ∧ source.value? depth = some value := by
  induction h with
  | null depth => exact ⟨.null, readAs_null, by rw [Source.value?]⟩
  | bool depth value => exact ⟨.bool value, readAs_bool value, by rw [Source.value?]⟩
  | int depth low high =>
      exact ⟨.number (numeralOf _), readAs_int _, by rw [Source.value?, value?_numeralOf low high]; rfl⟩
  | text depth value =>
      exact ⟨.text (value.toList.map unitOf), readAs_text value, by
        rw [Source.value?, textOfUnits?_map_unitOf, Option.map_some, String.ofList_toList]⟩
  | array h ih =>
      obtain ⟨sources, hsources⟩ := exists_forall₂ ih
      refine ⟨.array sources, readAs_array (hsources.imp fun _ _ h => h.1), ?_⟩
      rw [Source.value?, valuesOf?_of_forall₂ (hsources.imp fun _ _ h => h.2)]
      rfl
  | @object depth members ordered h ih =>
      have hmembers : ∀ m ∈ members, ∃ s : List TextUnit × Source,
          MemberReadAs m s ∧ s.2.value? depth = some m.2 := by
        intro m hm
        obtain ⟨source, hread, hvalue⟩ := ih m hm
        exact ⟨(m.1.toList.map unitOf, source), ⟨rfl, hread⟩, hvalue⟩
      obtain ⟨sources, hsources⟩ := exists_forall₂ hmembers
      refine ⟨.object sources, readAs_object (hsources.imp fun _ _ h => h.1), ?_⟩
      rw [Source.value?, membersOf?_of_forall₂ (hsources.imp fun _ _ h => ⟨h.1.1, h.2⟩),
        Option.map_some, ofMembers_of_ordered ordered]

/-- The text of a storable value has that value. -/
theorem parse?_render_of_storable {value : Json} (h : value.Storable maxDepth) :
    parse? value.render = some value := by
  obtain ⟨source, hread, hvalue⟩ := h.exists_readAs
  rw [parse?, decode?, parse?_render hread, Option.bind_some]
  exact hvalue

/-! ## Records

A record is written as an object of its fields in the order of their declaration.
Where the values of the fields are read back, the record is read as an object in
which each field is found under its name.
-/

theorem renderItems_eq_intercalate (items : List Json) :
    renderItems items = ",".intercalate (items.map render) := by
  induction items with
  | nil => rfl
  | cons item items ih =>
      cases items with
      | nil => rfl
      | cons item' items =>
          rw [renderItems, ih]
          · simp only [List.map_cons, String.intercalate_cons_cons, String.append_assoc]
          · exact List.cons_ne_nil _ _

theorem render_array (items : List Json) :
    (Json.array items).render = "[" ++ ",".intercalate (items.map render) ++ "]" := by
  rw [render, renderItems_eq_intercalate]

theorem render_text (value : String) : (Json.text value).render = renderText value := by
  rw [render]

theorem render_ofNat (n : Nat) : (Json.ofNat n).render = toString n := by
  rw [ofNat, render]
  rfl

theorem renderMembers_eq_intercalate (members : List (String × Json)) :
    renderMembers members =
      ",".intercalate (members.map fun m => renderText m.1 ++ ":" ++ m.2.render) := by
  induction members with
  | nil => rfl
  | cons m members ih =>
      cases members with
      | nil => rfl
      | cons m' members =>
          rw [renderMembers, ih]
          · simp only [List.map_cons, String.intercalate_cons_cons, String.append_assoc]
          · exact List.cons_ne_nil _ _

/-- A record of values is written as their object is. -/
theorem renderRecord_map (members : List (String × Json)) :
    renderRecord (members.map fun m => (m.1, m.2.render)) = (Json.object members).render := by
  rw [renderRecord, render, renderMembers_eq_intercalate, List.map_map]
  rfl

/-- Of members that spell names, those of the known names are collected. -/
theorem collectFields_map (names : List String) (members : List (String × Source)) :
    collectFields names (members.map fun m => (m.1.toList.map unitOf, m.2)) =
      names.mapM fun name =>
        match members.filter fun m => m.1 = name with
        | [] => some none
        | [m] => some (some m.2)
        | _ => none := by
  rw [collectFields, mapM_map_eq_some]
  · rfl
  · intro m _
    simp [textOfUnits?_map_unitOf]

/-- Where the value is an object, its members are read. -/
theorem optional_members_of_value? {depth : Nat} {source : Source} {members : List (String × Json)}
    (h : source.value? depth = some (.object members)) :
    Decoder.optional .members depth source = some (some members) := by
  cases source with
  | null => simp [Source.value?] at h
  | bool value => simp [Source.value?] at h
  | number numeral => simp [Source.value?] at h
  | text units => simp [Source.value?] at h
  | array items => cases depth <;> simp [Source.value?] at h
  | object sources => simp [Decoder.optional, Decoder.members, h]

/-- The syntax of a record with the given fields. -/
def recordSource (fields : List (String × Source)) : Source :=
  .object (fields.map fun field => (field.1.toList.map unitOf, field.2))

/-- A record of values that are read back is read back. -/
theorem readAs_record {members : List (String × Json)} {fields : List (String × Source)}
    (h : List.Forall₂ (fun m field => m.1 = field.1 ∧ ReadAs m.2 field.2) members fields) :
    ReadAs (.object members) (recordSource fields) := by
  refine readAs_object ?_
  rw [List.forall₂_map_right_iff]
  exact h.imp fun _ _ h => ⟨h.1 ▸ rfl, h.2⟩

/-- Of fields with different names one has a given name. -/
theorem filter_name_eq {fields : List (String × Source)} (hnodup : (fields.map Prod.fst).Nodup)
    {field : String × Source} (hmem : field ∈ fields) :
    (fields.filter fun m => m.1 = field.1) = [field] := by
  induction fields with
  | nil => cases hmem
  | cons first fields ih =>
      rw [List.map_cons, List.nodup_cons] at hnodup
      obtain ⟨hfirst, hnodup⟩ := hnodup
      rcases List.mem_cons.1 hmem with rfl | hmem
      · have hother : (fields.filter fun m => m.1 = field.1) = [] := by
          rw [List.filter_eq_nil_iff]
          intro m hm hname
          rw [decide_eq_true_iff] at hname
          exact hfirst (hname ▸ List.mem_map_of_mem hm)
        rw [List.filter_cons_of_pos (by simp), hother]
      · have hne : first.1 ≠ field.1 := fun hname =>
          hfirst (hname ▸ List.mem_map_of_mem hmem)
        rw [List.filter_cons_of_neg (by simpa using hne), ih hnodup hmem]

/-- In a record of different names each field is found. -/
theorem fieldsOf_recordSource {names : List String} {fields : List (String × Source)}
    (hnodup : names.Nodup) (hnames : fields.map Prod.fst = names) (depth : Nat) :
    fieldsOf names (depth + 1) (recordSource fields) =
      some (depth, fields.map fun field => some field.2) := by
  subst hnames
  rw [recordSource, fieldsOf, collectFields_map, mapM_of_forall₂]
  · rfl
  · rw [List.forall₂_map_left_iff, List.forall₂_map_right_iff, List.forall₂_same]
    intro field hfield
    rw [filter_name_eq hnodup hfield]

/-- A record whose names are in order has the values of its fields. -/
theorem value?_recordSource {names : List String} {members : List (String × Json)}
    {fields : List (String × Source)} {depth : Nat} (hordered : names.Pairwise (· < ·))
    (hnames : members.map Prod.fst = names)
    (h : List.Forall₂ (fun m field => m.1 = field.1 ∧ field.2.value? depth = some m.2)
      members fields) :
    (recordSource fields).value? (depth + 1) = some (.object members) := by
  have hmembers : membersOf? depth
      (fields.map fun field => (field.1.toList.map unitOf, field.2)) = some members := by
    refine membersOf?_of_forall₂ ?_
    rw [List.forall₂_map_right_iff]
    exact h.imp fun _ _ h => ⟨h.1 ▸ rfl, h.2⟩
  subst hnames
  rw [recordSource, Source.value?, hmembers, Option.map_some,
    ofMembers_of_ordered (List.pairwise_map.1 hordered)]

end ProjectHub.Json
