import Mathlib
import SpecOverlay.Proofs.Geometry.Axes

/-!
# How a gravity is read

A gravity is read word by word, and the words overwrite each other: a word that speaks of one axis
settles it whatever was settled before, a word that speaks of both settles only what is open.
The result can be read off the words without following them.  On each axis counts the last word
that speaks of it alone, and if there is none, the first word that speaks of both (`named`).

The induction carries an arbitrary start (`along_foldl_add`), since a word that speaks of both
settles an axis only for as long as no later word speaks of that axis alone.

* `read?_eq_some_iff`: what is read, in terms of the words and of what they name.
* `reading_order_free`: hence the words that speak of both may be moved past the others, and the
  axes do not influence each other.
* `read?_transposed`: hence exchanging the axes in every word exchanges the axes of the result.
-/

namespace SpecOverlay
namespace Gravity

/-! ## Words -/

/-- The texts between the bars, without the blanks around them. -/
def words (raw : String) : List String :=
  (raw.toList.splitOn '|').map fun piece => String.ofList (Text.trim piece)

/-- The words that speak of one axis alone, and what they say of it. -/
def specificWords : Axis → List (String × AxisGravity)
  | .horizontal =>
    [("left", .start), ("right", .finish), ("center_horizontal", .center),
      ("fill_horizontal", .fill)]
  | .vertical =>
    [("top", .start), ("bottom", .finish), ("center_vertical", .center), ("fill_vertical", .fill)]

/-- The words that speak of both axes, and what they say of them. -/
def generalWords : List (String × AxisGravity) :=
  [("center", .center), ("fill", .fill)]

/-- The ten words that are known. -/
def knownWords : List String :=
  (specificWords .horizontal ++ specificWords .vertical ++ generalWords).map Prod.fst

/-- What a word says of an axis alone. -/
def specific (axis : Axis) (w : String) : Option AxisGravity :=
  (specificWords axis).lookup w

/-- What a word says of both axes. -/
def general (w : String) : Option AxisGravity :=
  generalWords.lookup w

/-- What words name for an axis: what the last one says that speaks of it alone, and if there is
none, what the first one says that speaks of both. -/
def named (axis : Axis) (ws : List String) : Option AxisGravity :=
  (ws.filterMap (specific axis)).getLast?.or (ws.filterMap general).head?

/-- The place along an axis. -/
def along (g : Gravity) : Axis → AxisGravity
  | .horizontal => g.horizontal
  | .vertical => g.vertical

theorem ext_along {g g' : Gravity} (h : ∀ axis, g.along axis = g'.along axis) : g = g' := by
  obtain ⟨x, y⟩ := g
  obtain ⟨x', y'⟩ := g'
  obtain rfl : x = x' := h .horizontal
  obtain rfl : y = y' := h .vertical
  rfl

/-! ## Tokens -/

/-- What a token says of an axis alone. -/
def Token.specific : Axis → Token → Option AxisGravity
  | .horizontal, .horizontal g => some g
  | .vertical, .vertical g => some g
  | _, _ => none

/-- What a token says of both axes. -/
def Token.general : Token → Option AxisGravity
  | .both g => some g
  | _ => none

/-- What the tokens read so far have settled of an axis. -/
def Settled.along (p : Settled) : Axis → Option AxisGravity
  | .horizontal => p.horizontal
  | .vertical => p.vertical

/-- One more token: what it says of the axis alone, then what was settled, then what it says of
both axes. -/
theorem along_add (p : Settled) (t : Token) (axis : Axis) :
    (p.add t).along axis = (t.specific axis).or ((p.along axis).or t.general) := by
  cases t <;> cases axis <;> simp [Settled.add, Settled.along, Token.specific, Token.general]

/-- **On each axis counts the last token that speaks of it alone**, then what was settled before,
then the first token that speaks of both. -/
theorem along_foldl_add (ts : List Token) (p : Settled) (axis : Axis) :
    (ts.foldl Settled.add p).along axis =
      (ts.filterMap (Token.specific axis)).getLast?.or
        ((p.along axis).or (ts.filterMap Token.general).head?) := by
  induction ts generalizing p with
  | nil => simp
  | cons t ts ih =>
    rw [List.foldl_cons, ih, along_add]
    cases hspecific : t.specific axis with
    | none =>
      cases hgeneral : t.general with
      | none => simp [hspecific, hgeneral]
      | some g => simp [hspecific, hgeneral]
    | some g =>
      -- the token hides what was settled, unless a later one hides it
      cases hlast : (ts.filterMap (Token.specific axis)).getLast? <;>
        simp [hspecific, hlast, List.getLast?_cons]

/-! ## Reading -/

theorem splitBars_eq (s : List Char) : splitBars s = s.splitOn '|' := by
  induction s with
  | nil => rw [splitBars, List.splitOn_nil]
  | cons c s ih =>
    rw [splitBars, ih, List.splitOn_cons_eq_if_modifyHead]
    cases hpieces : s.splitOn '|' with
    | nil => exact absurd hpieces (List.splitOn_ne_nil _ _)
    | cons piece pieces => by_cases hc : c = '|' <;> simp [hc]

/-- What is looked up is what the word says. -/
theorem says_of_lookup {w : String} {t : Token} (h : tokens.lookup w = some t) :
    (∀ axis, t.specific axis = specific axis w) ∧ t.general = general w := by
  obtain ⟨before, after, hsplit, -⟩ := List.lookup_eq_some_iff.mp h
  have hmem : (w, t) ∈ tokens := hsplit ▸ List.mem_append_right before List.mem_cons_self
  have hall : ∀ p ∈ tokens,
      (∀ axis ∈ [Axis.horizontal, .vertical], p.2.specific axis = specific axis p.1) ∧
        p.2.general = general p.1 := by decide +kernel
  obtain ⟨hspecific, hgeneral⟩ := hall _ hmem
  exact ⟨fun axis => hspecific axis (by cases axis <;> decide), hgeneral⟩

/-- Only the ten words are looked up. -/
theorem lookup_eq_none_iff {w : String} : tokens.lookup w = none ↔ w ∉ knownWords := by
  have hperm : (tokens.map Prod.fst).Perm knownWords := by decide +kernel
  rw [← hperm.mem_iff, List.lookup_eq_none_iff]
  simp only [List.mem_map, not_exists, not_and, bne_iff_ne]
  exact forall₂_congr fun _ _ => ne_comm

theorem mapM_eq_none_iff {α β : Type} {f : α → Option β} {l : List α} :
    l.mapM f = none ↔ ∃ a ∈ l, f a = none := by
  induction l with
  | nil => simp
  | cons a l ih => cases ha : f a <;> cases hl : l.mapM f <;> simp_all [List.mapM_cons]

theorem filterMap_of_mapM {α β γ : Type} {f : α → Option β} {g : β → Option γ} {k : α → Option γ}
    {l : List α} {l' : List β} (h : l.mapM f = some l') (hg : ∀ a b, f a = some b → g b = k a) :
    l'.filterMap g = l.filterMap k := by
  induction l generalizing l' with
  | nil =>
    obtain rfl := Option.some.inj h
    rfl
  | cons a l ih =>
    rw [List.mapM_cons] at h
    obtain ⟨b, hb, h⟩ := Option.bind_eq_some_iff.mp h
    obtain ⟨bs, hbs, h⟩ := Option.bind_eq_some_iff.mp h
    obtain rfl := Option.some.inj h
    rw [List.filterMap_cons, List.filterMap_cons, hg a b hb, ih hbs]

variable {base base' g g' : Gravity} {raw raw' : String}

/-- The words are looked up one by one. -/
theorem read?_eq_map (base : Gravity) (raw : String) :
    read? base raw.toList =
      ((words raw).mapM fun w => tokens.lookup w).map fun ts =>
        ⟨((ts.foldl Settled.add {}).along .horizontal).getD base.horizontal,
          ((ts.foldl Settled.add {}).along .vertical).getD base.vertical⟩ := by
  rw [words, List.mapM_map, read?, splitBars_eq]
  rfl

theorem read?_eq_none_iff : read? base raw.toList = none ↔ ∃ w ∈ words raw, w ∉ knownWords := by
  simp only [read?_eq_map, Option.map_eq_none_iff, mapM_eq_none_iff, lookup_eq_none_iff]

/-- **What is read on each axis is what the words name for it**, and the base where they name
nothing. -/
theorem along_of_read? (h : read? base raw.toList = some g) (axis : Axis) :
    g.along axis = (named axis (words raw)).getD (base.along axis) := by
  rw [read?_eq_map] at h
  obtain ⟨ts, hts, rfl⟩ := Option.map_eq_some_iff.mp h
  have hspecific : ts.filterMap (Token.specific axis) = (words raw).filterMap (specific axis) :=
    filterMap_of_mapM hts fun _ _ hw => (says_of_lookup hw).1 axis
  have hgeneral : ts.filterMap Token.general = (words raw).filterMap general :=
    filterMap_of_mapM hts fun _ _ hw => (says_of_lookup hw).2
  have hsettled : (ts.foldl Settled.add {}).along axis = named axis (words raw) := by
    rw [along_foldl_add, hspecific, hgeneral, named]
    cases axis <;> rfl
  rw [← hsettled]
  cases axis <;> rfl

theorem read?_eq_some_iff :
    read? base raw.toList = some g ↔
      (∀ w ∈ words raw, w ∈ knownWords) ∧
        ∀ axis, g.along axis = (named axis (words raw)).getD (base.along axis) := by
  constructor
  · intro h
    refine ⟨fun w hw => by_contra fun hunknown => ?_, along_of_read? h⟩
    have hnone : read? base raw.toList = none := read?_eq_none_iff.mpr ⟨w, hw, hunknown⟩
    exact absurd (h.symm.trans hnone) (Option.some_ne_none g)
  · rintro ⟨hknown, halong⟩
    cases h : read? base raw.toList with
    | none =>
      obtain ⟨w, hw, hunknown⟩ := read?_eq_none_iff.mp h
      exact absurd (hknown w hw) hunknown
    | some g' =>
      exact congrArg some (ext_along fun axis => (along_of_read? h axis).trans (halong axis).symm)

/-! ## Exchanged axes -/

/-- The gravity with its axes exchanged. -/
def transpose (g : Gravity) : Gravity :=
  ⟨g.vertical, g.horizontal⟩

@[simp] theorem along_transpose (g : Gravity) (axis : Axis) :
    g.transpose.along axis = g.along axis.other := by
  cases axis <;> rfl

/-- Words that say the same of different axes. -/
def wordPairs : List (String × String) :=
  [("left", "top"), ("right", "bottom"), ("center_horizontal", "center_vertical"),
    ("fill_horizontal", "fill_vertical")]

/-- The word that says of each axis what a word says of the other one. -/
def transposeWord (w : String) : String :=
  ((wordPairs ++ wordPairs.map Prod.swap).lookup w).getD w

theorem lookup_eq_none_of_unknown {α : Type} {table : List (String × α)} {w : String}
    (htable : ∀ p ∈ table, p.1 ∈ knownWords) (h : w ∉ knownWords) : table.lookup w = none := by
  rw [List.lookup_eq_none_iff]
  intro p hp
  rw [bne_iff_ne]
  rintro rfl
  exact h (htable p hp)

theorem says_transposeWord (w : String) :
    (transposeWord w ∈ knownWords ↔ w ∈ knownWords) ∧ general (transposeWord w) = general w ∧
      ∀ axis, specific axis (transposeWord w) = specific axis.other w := by
  by_cases hw : w ∈ knownWords
  · have hall : ∀ w ∈ knownWords, transposeWord w ∈ knownWords ∧
        general (transposeWord w) = general w ∧
        specific .horizontal (transposeWord w) = specific .vertical w ∧
        specific .vertical (transposeWord w) = specific .horizontal w := by decide +kernel
    obtain ⟨hknown, hgeneral, hhorizontal, hvertical⟩ := hall w hw
    refine ⟨iff_of_true hknown hw, hgeneral, fun axis => ?_⟩
    cases axis with
    | horizontal => exact hhorizontal
    | vertical => exact hvertical
  · have hself : transposeWord w = w := by
      rw [transposeWord, lookup_eq_none_of_unknown (by decide +kernel) hw, Option.getD_none]
    have hnone (axis : Axis) : specific axis w = none :=
      lookup_eq_none_of_unknown (by cases axis <;> decide +kernel) hw
    rw [hself]
    exact ⟨.rfl, rfl, fun axis => (hnone axis).trans (hnone axis.other).symm⟩

theorem named_map_transposeWord (axis : Axis) (ws : List String) :
    named axis (ws.map transposeWord) = named axis.other ws := by
  have hspecific : specific axis ∘ transposeWord = specific axis.other :=
    funext fun w => (says_transposeWord w).2.2 axis
  have hgeneral : general ∘ transposeWord = general := funext fun w => (says_transposeWord w).2.1
  rw [named, named, List.filterMap_map, List.filterMap_map, hspecific, hgeneral]

/-- **Words for the other axes give the gravity with its axes exchanged.** -/
theorem read?_transposed (h : words raw' = (words raw).map transposeWord) (base : Gravity) :
    read? base.transpose raw'.toList = (read? base raw.toList).map transpose := by
  cases hread : read? base raw.toList with
  | none =>
    obtain ⟨w, hw, hunknown⟩ := read?_eq_none_iff.mp hread
    refine read?_eq_none_iff.mpr ⟨transposeWord w, ?_, ?_⟩
    · rw [h]
      exact List.mem_map_of_mem hw
    · rwa [(says_transposeWord w).1]
  | some g =>
    obtain ⟨hknown, halong⟩ := read?_eq_some_iff.mp hread
    refine read?_eq_some_iff.mpr ⟨?_, fun axis => ?_⟩
    · rw [h]
      intro w' hw'
      obtain ⟨w, hw, rfl⟩ := List.mem_map.mp hw'
      exact (says_transposeWord w).1.mpr (hknown w hw)
    · rw [h, named_map_transposeWord, along_transpose, along_transpose, halong]

/-! ## Order -/

/-- Whether a word speaks of both axes. -/
def isGeneral (w : String) : Bool :=
  (general w).isSome

/-- Words that speak of both axes are moved past the others: the words of each kind keep their
order. -/
structure Rearranged (ws ws' : List String) : Prop where
  general_eq : ws.filter isGeneral = ws'.filter isGeneral
  others_eq : ws.filter (!isGeneral ·) = ws'.filter (!isGeneral ·)

theorem not_isGeneral_of_specific {axis : Axis} {w : String} (h : specific axis w ≠ none) :
    isGeneral w = false := by
  have hall : ∀ p ∈ specificWords axis, isGeneral p.1 = false := by
    cases axis <;> decide +kernel
  obtain ⟨g, hg⟩ := Option.ne_none_iff_exists'.mp h
  obtain ⟨before, after, hsplit, -⟩ := List.lookup_eq_some_iff.mp hg
  exact hall (w, g) (hsplit ▸ List.mem_append_right before List.mem_cons_self)

/-- What a word does not say is not lost with the word. -/
theorem filterMap_filter_eq {α β : Type} {f : α → Option β} {p : α → Bool}
    (h : ∀ a, p a = false → f a = none) (l : List α) :
    (l.filter p).filterMap f = l.filterMap f := by
  rw [List.filterMap_filter]
  refine List.filterMap_congr fun a _ => ?_
  cases hp : p a with
  | false => rw [if_neg Bool.false_ne_true, h a hp]
  | true => rw [if_pos rfl]

namespace Rearranged

variable {ws ws' : List String}

theorem filterMap_general_eq (h : Rearranged ws ws') :
    ws.filterMap general = ws'.filterMap general := by
  have hlost (l : List String) : (l.filter isGeneral).filterMap general = l.filterMap general :=
    filterMap_filter_eq (fun w hw => by simpa [isGeneral] using hw) l
  rw [← hlost, h.general_eq, hlost]

theorem filterMap_specific_eq (h : Rearranged ws ws') (axis : Axis) :
    ws.filterMap (specific axis) = ws'.filterMap (specific axis) := by
  have hlost (l : List String) :
      (l.filter (!isGeneral ·)).filterMap (specific axis) = l.filterMap (specific axis) := by
    refine filterMap_filter_eq (fun w hw => by_contra fun hspecific => ?_) l
    rw [not_isGeneral_of_specific hspecific] at hw
    exact Bool.noConfusion hw
  rw [← hlost, h.others_eq, hlost]

theorem mem_iff (h : Rearranged ws ws') (w : String) : w ∈ ws ↔ w ∈ ws' := by
  have hmem (l : List String) : w ∈ l ↔ w ∈ l.filter isGeneral ∨ w ∈ l.filter (!isGeneral ·) := by
    rw [List.mem_filter, List.mem_filter, ← and_or_left]
    cases isGeneral w <;> simp
  rw [hmem, hmem ws', h.general_eq, h.others_eq]

end Rearranged

/-- The order of words that speak of both axes and of words that do not is of no effect. -/
theorem read?_eq_of_rearranged (h : Rearranged (words raw) (words raw')) (base : Gravity) :
    read? base raw.toList = read? base raw'.toList := by
  refine Option.ext fun g => ?_
  simp only [read?_eq_some_iff, named, h.filterMap_general_eq,
    h.filterMap_specific_eq, h.mem_iff]

/-- **The reading of a gravity has no order between the two kinds of words.**

* There is no gravity if and only if some word is not one of the ten.
* Otherwise each axis has what the last word says that speaks of it alone, if there is none what
  the first word says that speaks of both, and if there is none either what the base has.
* Words that speak of both may be moved past the others.
* Each axis depends only on the words that speak of it or of both, and on the base there. -/
theorem reading_order_free :
    (∀ base raw, read? base raw.toList = none ↔ ∃ w ∈ words raw, w ∉ knownWords) ∧
    (∀ base raw g, read? base raw.toList = some g ↔ (∀ w ∈ words raw, w ∈ knownWords) ∧
      ∀ axis, g.along axis = (named axis (words raw)).getD (base.along axis)) ∧
    (∀ base raw raw', Rearranged (words raw) (words raw') →
      read? base raw.toList = read? base raw'.toList) ∧
    ∀ axis base base' raw raw' g g', read? base raw.toList = some g →
      read? base' raw'.toList = some g' → base.along axis = base'.along axis →
      (words raw).filterMap (specific axis) = (words raw').filterMap (specific axis) →
      (words raw).filterMap general = (words raw').filterMap general →
      g.along axis = g'.along axis := by
  refine ⟨fun _ _ => read?_eq_none_iff, fun _ _ _ => read?_eq_some_iff,
    fun base _ _ h => read?_eq_of_rearranged h base, ?_⟩
  intro axis base base' raw raw' g g' h h' hbase hspecific hgeneral
  rw [along_of_read? h, along_of_read? h', named, named, hspecific, hgeneral, hbase]

/-- A word for both axes may be moved to the end, and the vertical axis may be settled otherwise
without any effect on the horizontal one. -/
theorem reading_order_free_of_moved_center :
    read? ⟨.fill, .fill⟩ "center| right |fill".toList =
        read? ⟨.fill, .fill⟩ "right|center|fill".toList ∧
      read? ⟨.fill, .fill⟩ "right|center|fill".toList = some ⟨.finish, .center⟩ ∧
      read? ⟨.fill, .start⟩ "bottom|right|center|fill|top".toList = some ⟨.finish, .start⟩ ∧
      (⟨.finish, .center⟩ : Gravity).along .horizontal =
        (⟨.finish, .start⟩ : Gravity).along .horizontal := by
  have hread : read? ⟨.fill, .fill⟩ "right|center|fill".toList = some ⟨.finish, .center⟩ := by
    decide +kernel
  have hread' : read? ⟨.fill, .start⟩ "bottom|right|center|fill|top".toList =
      some ⟨.finish, .start⟩ := by decide +kernel
  exact ⟨reading_order_free.2.2.1 _ _ _ ⟨by decide +kernel, by decide +kernel⟩, hread, hread',
    reading_order_free.2.2.2 .horizontal _ _ _ _ _ _ hread hread' rfl (by decide +kernel)
      (by decide +kernel)⟩

end Gravity
end SpecOverlay
