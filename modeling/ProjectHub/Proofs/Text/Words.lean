import Mathlib.Data.List.Chain
import Mathlib.Data.List.Forall2
import Mathlib.Data.List.Infix
import ProjectHub.Realm.Basic

/-!
# Words and their case

`words` finds again the words that were joined by single spaces, in any case of
their letters. A type in normal form is such a text in upper case, so it is its
own normal form.
-/

namespace ProjectHub

namespace Text

theorem toNat_toUpper (c : Char) :
    c.toUpper.toNat = if 97 ≤ c.toNat ∧ c.toNat ≤ 122 then c.toNat - 32 else c.toNat := by
  unfold Char.toUpper
  by_cases h : 'a'.val ≤ c.val ∧ c.val ≤ 'z'.val
  · have hlow : 97 ≤ c.toNat ∧ c.toNat ≤ 122 := h
    rw [dif_pos h, if_pos hlow]
    show (c.val + ('A'.val - 'a'.val)).toNat = _
    have hshift : ('A'.val - 'a'.val).toNat = 4294967264 := by decide
    have hval : c.val.toNat = c.toNat := rfl
    rw [UInt32.toNat_add, hshift, hval]
    omega
  · have hnot : ¬ (97 ≤ c.toNat ∧ c.toNat ≤ 122) := h
    rw [dif_neg h, if_neg hnot]

theorem toNat_toLower (c : Char) :
    c.toLower.toNat = if 65 ≤ c.toNat ∧ c.toNat ≤ 90 then c.toNat + 32 else c.toNat := by
  unfold Char.toLower
  by_cases h : 'A'.val ≤ c.val ∧ c.val ≤ 'Z'.val
  · have hhigh : 65 ≤ c.toNat ∧ c.toNat ≤ 90 := h
    rw [dif_pos h, if_pos hhigh]
    show (c.val + ('a'.val - 'A'.val)).toNat = _
    have hshift : ('a'.val - 'A'.val).toNat = 32 := by decide
    have hval : c.val.toNat = c.toNat := rfl
    rw [UInt32.toNat_add, hshift, hval]
    omega
  · have hnot : ¬ (65 ≤ c.toNat ∧ c.toNat ≤ 90) := h
    rw [dif_neg h, if_neg hnot]

theorem toUpper_toLower (c : Char) : c.toLower.toUpper = c.toUpper := by
  apply Char.toNat_inj.mp
  have hlower := toNat_toLower c
  rw [toNat_toUpper, toNat_toUpper]
  split at hlower <;> split <;> split <;> omega

theorem toLower_toUpper (c : Char) : c.toUpper.toLower = c.toLower := by
  apply Char.toNat_inj.mp
  have hupper := toNat_toUpper c
  rw [toNat_toLower, toNat_toLower]
  split at hupper <;> split <;> split <;> omega

theorem sameAscii_iff {a b : String} :
    sameAscii a b = true ↔ a.toList.map Char.toLower = b.toList.map Char.toLower := by
  rw [sameAscii, beq_iff_eq, ← String.toList_inj, lowerAscii, lowerAscii, String.toList_ofList,
    String.toList_ofList]

/-- Texts that are the same but for the case of A to Z are the same in upper case. -/
theorem map_toUpper_of_sameAscii {a b : String} (h : sameAscii a b = true) :
    a.toList.map Char.toUpper = b.toList.map Char.toUpper := by
  have hboth := congrArg (List.map Char.toUpper) (sameAscii_iff.mp h)
  have hupper : Char.toUpper ∘ Char.toLower = Char.toUpper := funext toUpper_toLower
  rwa [List.map_map, List.map_map, hupper] at hboth

theorem map_toUpper_eq_iff {v w : List Char} : v.map Char.toUpper = w.map Char.toUpper ↔
    sameAscii (String.ofList v) (String.ofList w) = true := by
  constructor
  · intro h
    have hboth := congrArg (List.map Char.toLower) h
    have hlower : Char.toLower ∘ Char.toUpper = Char.toLower := funext toLower_toUpper
    rw [List.map_map, List.map_map, hlower] at hboth
    rwa [sameAscii_iff, String.toList_ofList, String.toList_ofList]
  · intro h
    have hboth := map_toUpper_of_sameAscii h
    rwa [String.toList_ofList, String.toList_ofList] at hboth

theorem toUpper_toUpper (c : Char) : c.toUpper.toUpper = c.toUpper := by
  apply Char.toNat_inj.mp
  have honce := toNat_toUpper c
  rw [toNat_toUpper c.toUpper, if_neg]
  split at honce <;> omega

theorem isLower_iff {c : Char} : c.isLower = true ↔ 97 ≤ c.toNat ∧ c.toNat ≤ 122 := by
  show (decide (c.val ≥ 97) && decide (c.val ≤ 122)) = true ↔ _
  rw [Bool.and_eq_true, decide_eq_true_eq, decide_eq_true_eq]
  rfl

/-- A character is its own capital unless it is one of a to z. -/
theorem toUpper_eq_self_iff {c : Char} : c.toUpper = c ↔ c.isLower = false := by
  have hupper := toNat_toUpper c
  rw [← Char.toNat_inj, ← Bool.not_eq_true, isLower_iff]
  split at hupper <;> omega

theorem isBlank_toUpper (c : Char) : isBlank c.toUpper = isBlank c := by
  have honce := toNat_toUpper c
  split at honce
  · rw [Bool.eq_iff_iff]
    simp only [isBlank, Bool.or_eq_true, Bool.and_eq_true, decide_eq_true_eq, beq_iff_eq]
    omega
  · simp only [isBlank, honce]

theorem words_map {f : Char → Char} (hblank : ∀ c, isBlank (f c) = isBlank c) (cs : List Char) :
    words (cs.map f) = (words cs).map (List.map f) := by
  induction cs using words.induct with
  | case1 => rfl
  | case2 c hc => simp [words, hblank, hc]
  | case3 c hc => simp [words, hblank, hc]
  | case4 c d rest hc ih =>
      rw [List.map_cons] at ih
      simp only [List.map_cons, words, hblank, hc, ih, if_true]
  | case5 c d rest hc hd ih =>
      rw [List.map_cons] at ih
      simp [words, hblank, hc, hd, ih]
  | case6 c d rest hc hd ih =>
      rw [List.map_cons] at ih
      simp only [List.map_cons, words, hblank, hc, hd, ih, if_false, Bool.false_eq_true]
      cases words (d :: rest) <;> rfl

/-- A run without a blank, as `words` keeps them. -/
def IsWord (w : List Char) : Prop :=
  w ≠ [] ∧ ∀ c ∈ w, isBlank c = false

instance (w : List Char) : Decidable (IsWord w) :=
  decidable_of_iff (w ≠ [] ∧ w.all (fun c => !isBlank c) = true) (by simp [IsWord])

theorem words_cons_of_not_isBlank {c : Char} (hc : isBlank c = false) (d : Char)
    (rest : List Char) :
    words (c :: d :: rest) =
      if isBlank d then [c] :: words (d :: rest) else (words (d :: rest)).modifyHead (c :: ·) := by
  rw [words, hc]
  simp only [Bool.false_eq_true, if_false]

theorem words_cons_of_isBlank {b : Char} (hb : isBlank b = true) (rest : List Char) :
    words (b :: rest) = words rest := by
  cases rest with
  | nil => simp [words, hb]
  | cons c rest => rw [words, if_pos hb]

/-- A run before a blank is a word of its own. -/
theorem words_append_blank {w : List Char} (hw : IsWord w) {b : Char} (hb : isBlank b = true)
    (rest : List Char) : words (w ++ b :: rest) = w :: words rest := by
  obtain ⟨hne, hblank⟩ := hw
  induction w with
  | nil => exact absurd rfl hne
  | cons c w ih =>
      have hc : isBlank c = false := hblank c List.mem_cons_self
      cases w with
      | nil =>
          rw [List.cons_append, List.nil_append, words_cons_of_not_isBlank hc, if_pos hb,
            words_cons_of_isBlank hb]
      | cons d w =>
          have hd : isBlank d = false := hblank d (List.mem_cons_of_mem _ List.mem_cons_self)
          have hrest := ih (List.cons_ne_nil _ _) fun e he => hblank e (List.mem_cons_of_mem _ he)
          rw [List.cons_append] at hrest
          rw [List.cons_append, List.cons_append, words_cons_of_not_isBlank hc, hd, hrest]
          rfl

theorem words_of_isWord {w : List Char} (hw : IsWord w) : words w = [w] := by
  obtain ⟨hne, hblank⟩ := hw
  induction w with
  | nil => exact absurd rfl hne
  | cons c w ih =>
      have hc : isBlank c = false := hblank c List.mem_cons_self
      cases w with
      | nil => simp [words, hc]
      | cons d w =>
          have hd : isBlank d = false := hblank d (List.mem_cons_of_mem _ List.mem_cons_self)
          rw [words_cons_of_not_isBlank hc, hd,
            ih (List.cons_ne_nil _ _) fun e he => hblank e (List.mem_cons_of_mem _ he)]
          rfl

theorem isWord_of_mem_words {cs w : List Char} (h : w ∈ words cs) : IsWord w := by
  induction cs using words.induct generalizing w with
  | case1 => simp [words] at h
  | case2 c hc => simp [words, hc] at h
  | case3 c hc =>
      simp only [words, hc, Bool.false_eq_true, if_false, List.mem_singleton] at h
      subst h
      exact ⟨List.cons_ne_nil _ _, by simpa using hc⟩
  | case4 c d rest hc ih =>
      rw [words, if_pos hc] at h
      exact ih h
  | case5 c d rest hc hd ih =>
      rw [words_cons_of_not_isBlank (by simpa using hc), if_pos hd] at h
      rcases List.mem_cons.mp h with rfl | h
      · exact ⟨List.cons_ne_nil _ _, by simpa using hc⟩
      · exact ih h
  | case6 c d rest hc hd ih =>
      rw [words_cons_of_not_isBlank (by simpa using hc), if_neg hd] at h
      cases hwords : words (d :: rest) with
      | nil =>
          rw [hwords] at h
          simp at h
      | cons first others =>
          rw [hwords, List.modifyHead_cons] at h
          rcases List.mem_cons.mp h with rfl | h
          · have hfirst : IsWord first := ih (hwords ▸ List.mem_cons_self)
            refine ⟨List.cons_ne_nil _ _, fun e he => ?_⟩
            rcases List.mem_cons.mp he with rfl | he
            · simpa using hc
            · exact hfirst.2 e he
          · exact ih (hwords ▸ List.mem_cons_of_mem _ h)

/-- A text and the words that its blanks part it into. -/
inductive PartsInto : List Char → List (List Char) → Prop where
  | nil : PartsInto [] []
  | blank {b : Char} {cs : List Char} {ws : List (List Char)} (hb : isBlank b = true)
    (h : PartsInto cs ws) : PartsInto (b :: cs) ws
  | last {w : List Char} (hw : IsWord w) : PartsInto w [w]
  | word {w cs : List Char} {b : Char} {ws : List (List Char)} (hw : IsWord w)
    (hb : isBlank b = true) (h : PartsInto cs ws) : PartsInto (w ++ b :: cs) (w :: ws)

/-- A character in front of a word makes that word longer. -/
theorem PartsInto.cons {c d : Char} {cs : List Char} {ws : List (List Char)}
    (h : PartsInto (d :: cs) ws) (hc : isBlank c = false) (hd : isBlank d = false) :
    PartsInto (c :: d :: cs) (ws.modifyHead (c :: ·)) := by
  have hlonger {w : List Char} (hw : IsWord w) : IsWord (c :: w) :=
    ⟨List.cons_ne_nil _ _, List.forall_mem_cons.mpr ⟨hc, hw.2⟩⟩
  generalize htext : d :: cs = text at h
  cases h with
  | nil => cases htext
  | blank hb h =>
      cases htext
      rw [hd] at hb
      cases hb
  | last hw => exact .last (hlonger hw)
  | word hw hb h => exact .word (hlonger hw) hb h

theorem PartsInto.of_blank {b : Char} {cs : List Char} {ws : List (List Char)}
    (h : PartsInto (b :: cs) ws) (hb : isBlank b = true) : PartsInto cs ws := by
  have hnot {w : List Char} (hw : IsWord w) : b ∉ w := fun hin => by
    rw [hw.2 b hin] at hb
    cases hb
  generalize htext : b :: cs = text at h
  cases h with
  | nil => cases htext
  | blank _ h =>
      cases htext
      exact h
  | last hw => exact absurd (htext ▸ List.mem_cons_self) (hnot hw)
  | @word w rest d ws hw hd h =>
      cases w with
      | nil => exact absurd rfl hw.1
      | cons e w =>
          cases htext
          exact absurd List.mem_cons_self (hnot hw)

/-- The words of a text are what its blanks part it into. -/
theorem words_eq_iff {cs : List Char} {ws : List (List Char)} :
    words cs = ws ↔ PartsInto cs ws := by
  constructor
  · rintro rfl
    induction cs using words.induct with
    | case1 => exact .nil
    | case2 c hc =>
        rw [words, if_pos hc]
        exact .blank hc .nil
    | case3 c hc =>
        rw [words, if_neg hc]
        exact .last ⟨List.cons_ne_nil _ _, by simpa using hc⟩
    | case4 c d rest hc ih =>
        rw [words, if_pos hc]
        exact .blank hc ih
    | case5 c d rest hc hd ih =>
        rw [words, if_neg hc, if_pos hd]
        have hw : IsWord [c] := ⟨List.cons_ne_nil _ _, by simpa using hc⟩
        exact .word hw hd (ih.of_blank hd)
    | case6 c d rest hc hd ih =>
        rw [words, if_neg hc, if_neg hd]
        exact ih.cons (by simpa using hc) (by simpa using hd)
  · intro h
    induction h with
    | nil => rfl
    | blank hb _ ih => rw [words_cons_of_isBlank hb, ih]
    | last hw => exact words_of_isWord hw
    | word hw hb _ ih => rw [words_append_blank hw hb, ih]

theorem map_intercalate {α β : Type} (f : α → β) (s : List α) (ws : List (List α)) :
    (s.intercalate ws).map f = (s.map f).intercalate (ws.map (List.map f)) := by
  induction ws with
  | nil => rfl
  | cons w ws ih =>
      cases ws with
      | nil => simp
      | cons v ws =>
          rw [List.map_cons] at ih
          simp only [List.map_cons, List.intercalate_cons_cons, List.map_append, ih]

/-- Words with one space between them are those words. -/
theorem words_intercalate {ws : List (List Char)} (h : ∀ w ∈ ws, IsWord w) :
    words ([' '].intercalate ws) = ws := by
  induction ws with
  | nil => rfl
  | cons w ws ih =>
      have hw : IsWord w := h w List.mem_cons_self
      have hws := ih fun v hv => h v (List.mem_cons_of_mem _ hv)
      cases ws with
      | nil => simpa using words_of_isWord hw
      | cons v ws =>
          rw [List.intercalate_cons_cons, List.append_assoc, List.singleton_append,
            words_append_blank hw (by decide), hws]

/-- A text with single spaces between its words and no other blanks. -/
structure IsSpaced (cs : List Char) : Prop where
  /-- No blank leads. -/
  front : ∀ c ∈ cs.head?, isBlank c = false
  /-- No blank trails. -/
  back : ∀ c ∈ cs.getLast?, isBlank c = false
  /-- No blank follows a blank. -/
  single : cs.IsChain fun c d => isBlank c = true → isBlank d = false
  /-- Every blank is a space. -/
  spaces : ∀ c ∈ cs, isBlank c = true → c = ' '

theorem isSpaced_of_isWord {w : List Char} (hw : IsWord w) : IsSpaced w where
  front := fun c hc => hw.2 c (List.mem_of_mem_head? hc)
  back := fun c hc => hw.2 c (List.mem_of_mem_getLast? hc)
  single := by
    have hall : w.Pairwise fun _ d => isBlank d = false :=
      List.pairwise_of_forall_mem_list fun _ _ d hd => hw.2 d hd
    exact hall.isChain.imp fun _ _ hd _ => hd
  spaces := by
    intro c hc hb
    rw [hw.2 c hc] at hb
    cases hb

theorem IsSpaced.cons {w rest : List Char} (hw : IsWord w) (h : IsSpaced rest)
    (hne : rest ≠ []) : IsSpaced (w ++ ' ' :: rest) := by
  have hword := isSpaced_of_isWord hw
  refine ⟨?_, ?_, ?_, ?_⟩
  · intro c hc
    rw [List.head?_append_of_ne_nil _ hw.1] at hc
    exact hword.front c hc
  · intro c hc
    obtain ⟨d, rest, rfl⟩ := List.exists_cons_of_ne_nil hne
    rw [List.getLast?_append_of_ne_nil _ (List.cons_ne_nil _ _), List.getLast?_cons_cons] at hc
    exact h.back c hc
  · refine List.isChain_append.mpr
      ⟨hword.single, List.isChain_cons.mpr ⟨fun c hc _ => h.front c hc, h.single⟩, ?_⟩
    intro c hc d _ hb
    rw [hword.back c hc] at hb
    cases hb
  · intro c hc hb
    rcases List.mem_append.mp hc with hc | hc
    · exact hword.spaces c hc hb
    · rcases List.mem_cons.mp hc with rfl | hc
      · rfl
      · exact h.spaces c hc hb

theorem intercalate_ne_nil {ws : List (List Char)} (h : ∀ w ∈ ws, IsWord w) (hne : ws ≠ []) :
    [' '].intercalate ws ≠ [] := by
  obtain ⟨w, ws, rfl⟩ := List.exists_cons_of_ne_nil hne
  intro hnil
  have hwords := words_intercalate h
  rw [hnil] at hwords
  cases hwords

/-- Words with one space between them are spaced. -/
theorem isSpaced_intercalate {ws : List (List Char)} (h : ∀ w ∈ ws, IsWord w) :
    IsSpaced ([' '].intercalate ws) := by
  induction ws with
  | nil => exact ⟨nofun, nofun, .nil, nofun⟩
  | cons w ws ih =>
      obtain ⟨hw, hws⟩ := List.forall_mem_cons.mp h
      cases ws with
      | nil => simpa using isSpaced_of_isWord hw
      | cons v ws =>
          rw [List.intercalate_cons_cons, List.append_assoc, List.singleton_append]
          exact (ih hws).cons hw (intercalate_ne_nil hws (List.cons_ne_nil _ _))

/-- What stands behind a blank of a spaced text. -/
theorem IsSpaced.of_append {w rest : List Char} {b : Char} (h : IsSpaced (w ++ b :: rest))
    (hb : isBlank b = true) : b = ' ' ∧ rest ≠ [] ∧ IsSpaced rest := by
  have hback := h.back
  have hchain := (List.isChain_append.mp h.single).2.1
  rw [List.getLast?_append_of_ne_nil _ (List.cons_ne_nil b rest)] at hback
  obtain ⟨hfront, hsingle⟩ := List.isChain_cons.mp hchain
  have hne : rest ≠ [] := by
    rintro rfl
    rw [hback b rfl] at hb
    cases hb
  refine ⟨h.spaces b (by simp) hb, hne, fun c hc => hfront c hc hb, ?_, hsingle, ?_⟩
  · obtain ⟨c, rest, rfl⟩ := List.exists_cons_of_ne_nil hne
    rwa [List.getLast?_cons_cons] at hback
  · exact fun c hc => h.spaces c (List.mem_append_right _ (List.mem_cons_of_mem _ hc))

/-- A spaced text is its words with one space between them. -/
theorem PartsInto.intercalate {cs : List Char} {ws : List (List Char)} (h : PartsInto cs ws)
    (hcs : IsSpaced cs) : [' '].intercalate ws = cs := by
  induction h with
  | nil => rfl
  | @blank b cs ws hb h ih =>
      rw [hcs.front b rfl] at hb
      cases hb
  | last hw => simp
  | @word w cs b ws hw hb h ih =>
      obtain ⟨rfl, hne, hrest⟩ := hcs.of_append hb
      have hjoin := ih hrest
      cases ws with
      | nil => exact absurd hjoin.symm hne
      | cons v ws =>
          rw [List.intercalate_cons_cons, hjoin, List.append_assoc, List.singleton_append]

theorem trim_of_not_isBlank {s : String} (h : ∀ c ∈ s.toList, isBlank c = false) : trim s = s := by
  have hkeep : ∀ cs : List Char, (∀ c ∈ cs, isBlank c = false) → cs.dropWhile isBlank = cs := by
    intro cs hcs
    cases cs with
    | nil => rfl
    | cons c cs => rw [List.dropWhile_cons, hcs c List.mem_cons_self, if_neg Bool.false_ne_true]
  have hback : ∀ c ∈ s.toList.reverse, isBlank c = false :=
    fun c hc => h c (List.mem_reverse.mp hc)
  rw [trim, trimChars, trimEnd, hkeep _ h, hkeep _ hback, List.reverse_reverse, String.ofList_toList]

/-! ## Runs within a text -/

theorem prefix_append_cons_iff {w a rest : List Char} {b : Char} (hb : b ∉ w) :
    w <+: a ++ b :: rest ↔ w <+: a := by
  induction a generalizing w with
  | nil =>
      cases w with
      | nil => simp
      | cons c w =>
          have hne : c ≠ b := fun heq => hb (heq ▸ List.mem_cons_self)
          simp [List.cons_prefix_cons, hne]
  | cons d a ih =>
      cases w with
      | nil => simp
      | cons c w =>
          rw [List.cons_append, List.cons_prefix_cons, List.cons_prefix_cons,
            ih fun hmem => hb (List.mem_cons_of_mem _ hmem)]

/-- The first word of a text that starts with no blank goes up to the first blank or to the end. -/
theorem exists_words_cons {c : Char} (hc : isBlank c = false) (rest : List Char) :
    ∃ first others tail, words (c :: rest) = first :: others ∧ c :: rest = first ++ tail ∧
      ∀ b ∈ tail.head?, isBlank b = true := by
  induction rest generalizing c with
  | nil => exact ⟨[c], [], [], by simp [words, hc], rfl, by simp⟩
  | cons d rest ih =>
      rw [words_cons_of_not_isBlank hc]
      cases hd : isBlank d with
      | true => exact ⟨[c], words (d :: rest), d :: rest, rfl, rfl, by simpa using hd⟩
      | false =>
          obtain ⟨first, others, tail, hwords, htail, hend⟩ := ih hd
          exact ⟨c :: first, others, tail, by rw [hwords]; rfl, by rw [htail]; rfl, hend⟩

/-- A run without a blank stands in a text where it stands in one of its words. -/
theorem infix_iff_words {w : List Char} (hw : IsWord w) (cs : List Char) :
    w <:+: cs ↔ ∃ v ∈ words cs, w <:+: v := by
  obtain ⟨hne, hblank⟩ := hw
  have hnot {b : Char} (hb : isBlank b = true) : b ∉ w := fun hmem => by
    rw [hblank b hmem] at hb
    cases hb
  -- no occurrence starts at a blank
  have hskip {b : Char} (hb : isBlank b = true) (rest : List Char) : ¬w <+: b :: rest := fun h =>
    hne (List.prefix_nil.mp ((prefix_append_cons_iff (a := []) (hnot hb)).mp h))
  induction cs using words.induct with
  | case1 => simp [words, hne]
  | case2 c hc =>
      rw [words, if_pos hc, List.infix_cons_iff, or_iff_right (hskip hc [])]
      simp [hne]
  | case3 c hc => simp [words, hc]
  | case4 c d rest hc ih =>
      rw [words, if_pos hc, List.infix_cons_iff, or_iff_right (hskip hc _)]
      exact ih
  | case5 c d rest hc hd ih =>
      have hstart : w <+: c :: d :: rest ↔ w <+: [c] := prefix_append_cons_iff (a := [c]) (hnot hd)
      have hone : w <:+: [c] ↔ w <+: [c] := by simp [List.infix_cons_iff, hne]
      rw [words_cons_of_not_isBlank (by simpa using hc), if_pos hd, List.exists_mem_cons_iff, hone,
        List.infix_cons_iff, hstart]
      exact or_congr_right ih
  | case6 c d rest hc hd ih =>
      obtain ⟨first, others, tail, hwords, htail, hend⟩ :=
        exists_words_cons (c := d) (by simpa using hd) rest
      have hstart : w <+: c :: d :: rest ↔ w <+: c :: first := by
        rw [htail]
        cases tail with
        | nil => simp
        | cons b tail => exact prefix_append_cons_iff (a := c :: first) (hnot (hend b rfl))
      have hfirst : w <:+: c :: first ↔ w <+: c :: first ∨ w <:+: first := List.infix_cons_iff
      rw [words_cons_of_not_isBlank (by simpa using hc), if_neg hd, hwords, List.modifyHead_cons,
        List.exists_mem_cons_iff, List.infix_cons_iff, hstart, hfirst, or_assoc]
      rw [hwords, List.exists_mem_cons_iff] at ih
      exact or_congr_right ih

end Text

/-! ## Types in normal form -/

theorem words_normalizeType (raw : String) : Text.words (normalizeType raw).toList =
    (Text.words raw.toList).map (List.map Char.toUpper) := by
  have hwords : ∀ w ∈ Text.words raw.toList, Text.IsWord w := fun w => Text.isWord_of_mem_words
  rw [normalizeType, Text.upperAscii, String.toList_ofList, String.toList_ofList,
    Text.words_map Text.isBlank_toUpper, Text.words_intercalate hwords]

theorem toList_normalizeType (raw : String) : (normalizeType raw).toList =
    [' '].intercalate ((Text.words raw.toList).map (List.map Char.toUpper)) := by
  rw [normalizeType, Text.upperAscii, String.toList_ofList, String.toList_ofList,
    Text.map_intercalate]
  rfl

/-- A type in normal form is its own normal form. -/
theorem normalizeType_normalizeType (raw : String) :
    normalizeType (normalizeType raw) = normalizeType raw := by
  have htwice : Char.toUpper ∘ Char.toUpper = Char.toUpper := funext Text.toUpper_toUpper
  rw [← String.toList_inj, toList_normalizeType, words_normalizeType, List.map_map,
    List.map_comp_map, htwice, ← toList_normalizeType]

/-- Two types have the same words, but for the case of A to Z. -/
def SameWords (a b : String) : Prop :=
  List.Forall₂ (fun v w => Text.sameAscii (String.ofList v) (String.ofList w) = true)
    (Text.words a.toList) (Text.words b.toList)

/-- Types have one normal form if and only if they have the same words. -/
theorem normalizeType_eq_iff {a b : String} :
    normalizeType a = normalizeType b ↔ SameWords a b := by
  have hwords : normalizeType a = normalizeType b ↔
      (Text.words a.toList).map (List.map Char.toUpper) =
        (Text.words b.toList).map (List.map Char.toUpper) := by
    constructor
    · intro h
      rw [← words_normalizeType, ← words_normalizeType, h]
    · intro h
      rw [← String.toList_inj, toList_normalizeType, toList_normalizeType, h]
  rw [hwords, SameWords, ← List.forall₂_eq_eq_eq, List.forall₂_map_left_iff,
    List.forall₂_map_right_iff]
  simp only [Text.map_toUpper_eq_iff]

/-- The normal forms are the spaced texts without a small letter of ASCII. -/
theorem normalizeType_eq_self_iff {s : String} : normalizeType s = s ↔
    Text.IsSpaced s.toList ∧ ∀ c ∈ s.toList, c.isLower = false := by
  constructor
  · intro h
    have hwords : ∀ w ∈ (Text.words s.toList).map (List.map Char.toUpper), Text.IsWord w := by
      rw [← words_normalizeType]
      exact fun w => Text.isWord_of_mem_words
    refine ⟨?_, fun c hc => ?_⟩
    · rw [← h, toList_normalizeType]
      exact Text.isSpaced_intercalate hwords
    · rw [← h, normalizeType, Text.upperAscii, String.toList_ofList, String.toList_ofList] at hc
      obtain ⟨d, -, rfl⟩ := List.mem_map.mp hc
      exact Text.toUpper_eq_self_iff.mp (Text.toUpper_toUpper d)
  · rintro ⟨hspaced, hupper⟩
    have hjoin := (Text.words_eq_iff.mp rfl).intercalate hspaced
    have hsame : s.toList.map Char.toUpper = s.toList :=
      (List.map_congr_left fun c hc => Text.toUpper_eq_self_iff.mpr (hupper c hc)).trans
        (List.map_id _)
    have hspace : [' '].map Char.toUpper = [' '] := by decide
    rw [← String.toList_inj, toList_normalizeType, ← hspace, ← Text.map_intercalate, hjoin, hsame]

example : normalizeType "\tvarchar\u3000( 10,\n2 ) ñ" = "VARCHAR ( 10, 2 ) ñ" := by decide +kernel

end ProjectHub
