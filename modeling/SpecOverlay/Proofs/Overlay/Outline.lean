import Mathlib.Data.List.Basic
import Mathlib.Order.Basic
import SpecOverlay.Overlay

/-!
# Outlines and the trees they show

The lines of an outline stand for the nodes of a forest.  A node has a path, which says for each
level which of the trees to go down, and in lexicographic order the paths list every node before its
children and the children first to last (`pathsAll`).  The lines follow this order, each with two
spaces to a level (`linesAll_eq`).

If no name begins with a space, the level of a line can be read off, and with the levels the trees:
what follows the line of a node at a deeper level is below it, and the first line that is not deeper
ends its children (`linesAll_inj`, by induction on forests, for any lines behind them).  As names
contain no line feed, the text has the same lines (`splitOn_text`), so that an outline determines
the tree (`outline_determines`).
-/

namespace SpecOverlay
namespace Outline

variable {level : ℕ} {name : String} {children os os' : List Outline} {path p q : List ℕ}

/-! ## Forests -/

/-- Induction on forests: along the trees and into each of them. -/
theorem forest_induction {motive : List Outline → Prop} (nil : motive [])
    (cons : ∀ name children os, motive children → motive os → motive (node name children :: os)) :
    ∀ os, motive os
  | [] => nil
  | node name children :: os =>
    cons name children os (forest_induction nil cons children) (forest_induction nil cons os)
termination_by os => sizeOf os

/-- The name of the node at a path. -/
def nameAt? : List Outline → List ℕ → Option String
  | _, [] => none
  | os, i :: path =>
    match os[i]? with
    | none => none
    | some (node name children) => if path = [] then some name else nameAt? children path

/-- The path behind one more tree. -/
def beside : List ℕ → List ℕ
  | [] => []
  | i :: path => (i + 1) :: path

@[simp] theorem length_beside : ∀ path, (beside path).length = path.length
  | [] => rfl
  | _ :: _ => rfl

@[simp] theorem nameAt?_nil : ∀ path, nameAt? [] path = none
  | [] => rfl
  | _ :: _ => rfl

@[simp] theorem nameAt?_root : nameAt? (node name children :: os) [0] = some name := rfl

theorem nameAt?_below (h : path ≠ []) :
    nameAt? (node name children :: os) (0 :: path) = nameAt? children path := by
  simp [nameAt?, h]

@[simp] theorem nameAt?_beside (o : Outline) (os : List Outline) :
    ∀ path, nameAt? (o :: os) (beside path) = nameAt? os path
  | [] => rfl
  | _ :: _ => rfl

/-! ## Paths in order -/

mutual

/-- The paths inside a tree, that of its root first. -/
def paths : Outline → List (List ℕ)
  | node _ children => [] :: pathsAll children

/-- The paths in a forest, those of an earlier tree first. -/
def pathsAll : List Outline → List (List ℕ)
  | [] => []
  | o :: os => (paths o).map (0 :: ·) ++ (pathsAll os).map beside

end

theorem pathsAll_cons (name : String) (children os : List Outline) :
    pathsAll (node name children :: os) =
      [0] :: ((pathsAll children).map (0 :: ·) ++ (pathsAll os).map beside) := rfl

/-- **Every node has its path in the list.** -/
theorem mem_pathsAll_iff : path ∈ pathsAll os ↔ (nameAt? os path).isSome := by
  induction os using forest_induction generalizing path with
  | nil => simp [pathsAll]
  | cons name children os ihchildren ihos =>
    rw [pathsAll_cons]
    match path with
    | [] =>
      have hnil (q : List ℕ) : beside q = [] ↔ q = [] := by cases q <;> simp [beside]
      simp [nameAt?, hnil, ihos]
    | [0] =>
      simp
    | 0 :: i :: path =>
      have hne (q : List ℕ) : beside q ≠ 0 :: i :: path := by cases q <;> simp [beside]
      rw [nameAt?_below (List.cons_ne_nil _ _), ← ihchildren]
      simp [hne]
    | (i + 1) :: path =>
      have hbeside (q : List ℕ) : beside q = (i + 1) :: path ↔ q = i :: path := by
        cases q <;> simp [beside]
      have hnext : nameAt? (node name children :: os) ((i + 1) :: path) = nameAt? os (i :: path) := rfl
      rw [hnext,
        ← ihos]
      simp [hbeside]

theorem nil_notMem_pathsAll : [] ∉ pathsAll os := by
  rw [mem_pathsAll_iff]
  exact Bool.false_ne_true

theorem beside_lt_beside (h : p < q) : beside p < beside q := by
  cases p with
  | nil =>
    cases q with
    | nil => exact h
    | cons j q => exact List.nil_lt_cons _ _
  | cons i p =>
    cases q with
    | nil => exact absurd h (List.not_lt_nil _)
    | cons j q =>
      rw [List.cons_lt_cons_iff] at h
      rw [beside, beside, List.cons_lt_cons_iff]
      exact h.imp Nat.succ_lt_succ (And.imp_left (congrArg Nat.succ))

/-- **The paths are in lexicographic order.** -/
theorem pairwise_pathsAll (os : List Outline) : (pathsAll os).Pairwise (· < ·) := by
  induction os using forest_induction with
  | nil => exact .nil
  | cons name children os ihchildren ihos =>
    have hbeside {p q : List ℕ} (hq : q ∈ pathsAll os) : 0 :: p < beside q := by
      cases q with
      | nil => exact absurd hq nil_notMem_pathsAll
      | cons j q => exact List.cons_lt_cons_iff.mpr (.inl (Nat.succ_pos j))
    rw [pathsAll_cons, List.pairwise_cons, List.pairwise_append]
    refine ⟨fun p hp => ?_, ?_, ihos.map _ fun _ _ h => beside_lt_beside h, fun p hp q hq => ?_⟩
    · rcases List.mem_append.mp hp with hp | hp
      · obtain ⟨p, hmem, rfl⟩ := List.mem_map.mp hp
        cases p with
        | nil => exact absurd hmem nil_notMem_pathsAll
        | cons i p => exact List.cons_lt_cons_iff.mpr (.inr ⟨rfl, List.nil_lt_cons _ _⟩)
      · obtain ⟨q, hmem, rfl⟩ := List.mem_map.mp hp
        exact hbeside hmem
    · exact ihchildren.map _ fun _ _ h => List.cons_lt_cons_iff.mpr (.inr ⟨rfl, h⟩)
    · obtain ⟨p, -, rfl⟩ := List.mem_map.mp hp
      obtain ⟨q, hmem, rfl⟩ := List.mem_map.mp hq
      exact hbeside hmem

/-! ## Lines -/

/-- A name with two spaces to a level before it. -/
def row (level : ℕ) (name : String) : String :=
  String.ofList (List.replicate (2 * level) ' ') ++ name

@[simp] theorem linesAll_nil : linesAll level [] = [] := rfl

theorem linesAll_cons (level : ℕ) (name : String) (children os : List Outline) :
    linesAll level (node name children :: os) =
      row level name :: (linesAll (level + 1) children ++ linesAll level os) := rfl

/-- **There is one line for each node**, in the order of the paths, and its level is the length of
the path. -/
theorem linesAll_eq (level : ℕ) (os : List Outline) :
    linesAll (level + 1) os =
      (pathsAll os).map fun p => row (level + p.length) ((nameAt? os p).getD "") := by
  induction os using forest_induction generalizing level with
  | nil => rfl
  | cons name children os ihchildren ihos =>
    have hbelow : ∀ p ∈ pathsAll children,
        row (level + 1 + p.length) ((nameAt? children p).getD "") =
          row (level + (0 :: p).length) ((nameAt? (node name children :: os) (0 :: p)).getD "") := by
      intro p hp
      have hne : p ≠ [] := fun h => nil_notMem_pathsAll (h ▸ hp)
      rw [nameAt?_below hne, List.length_cons, Nat.add_right_comm, Nat.add_assoc]
    rw [linesAll_cons, pathsAll_cons, ihchildren, ihos, List.map_cons, List.map_append,
      List.map_map, List.map_map, List.map_congr_left hbelow]
    simp [Function.comp_def]

/-! ## Reading lines -/

/-- A name that a line can be read back from: there is no line feed in it, and no space in front.
It may be empty. -/
def IsPlain (name : String) : Prop :=
  '\n' ∉ name.toList ∧ name.toList.head? ≠ some ' '

instance (name : String) : Decidable (IsPlain name) :=
  inferInstanceAs (Decidable ('\n' ∉ name.toList ∧ name.toList.head? ≠ some ' '))

/-- Every name is plain. -/
def AllPlain (os : List Outline) : Prop :=
  ∀ path name, nameAt? os path = some name → IsPlain name

theorem allPlain_nil : AllPlain [] := by
  intro path name h
  rw [nameAt?_nil] at h
  nomatch h

theorem allPlain_cons_iff : AllPlain (node name children :: os) ↔
    IsPlain name ∧ AllPlain children ∧ AllPlain os := by
  constructor
  · intro h
    refine ⟨h [0] name rfl, fun path name' hname => ?_, fun path name' hname => ?_⟩
    · cases path with
      | nil => nomatch hname
      | cons i path => exact h (0 :: i :: path) name' hname
    · exact h (beside path) name' ((nameAt?_beside _ _ _).trans hname)
  · rintro ⟨hroot, hchildren, hos⟩ path name' hname
    match path with
    | [] => nomatch hname
    | [0] => exact Option.some.inj hname ▸ hroot
    | 0 :: i :: path => exact hchildren (i :: path) name' hname
    | (i + 1) :: path => exact hos (i :: path) name' hname

theorem eq_of_replicate_append {c : Char} {m n : ℕ} {s t : List Char} (hs : s.head? ≠ some c)
    (ht : t.head? ≠ some c) (h : List.replicate m c ++ s = List.replicate n c ++ t) :
    m = n ∧ s = t := by
  induction m generalizing n with
  | zero =>
    cases n with
    | zero => exact ⟨rfl, h⟩
    | succ n =>
      rw [List.replicate_zero, List.nil_append] at h
      exact absurd (by rw [h]; rfl) hs
  | succ m ih =>
    cases n with
    | zero =>
      rw [List.replicate_zero, List.nil_append] at h
      exact absurd (by rw [← h]; rfl) ht
    | succ n =>
      obtain ⟨rfl, rfl⟩ := ih (List.cons.inj h).2
      exact ⟨rfl, rfl⟩

/-- **Level and name can be read off a line.** -/
theorem row_inj {level' : ℕ} {name' : String} (hname : IsPlain name) (hname' : IsPlain name')
    (h : row level name = row level' name') : level = level' ∧ name = name' := by
  have hlist := congrArg String.toList h
  rw [row, row, String.toList_append, String.toList_append, String.toList_ofList,
    String.toList_ofList] at hlist
  obtain ⟨hlevel, heq⟩ := eq_of_replicate_append hname.2 hname'.2 hlist
  exact ⟨by omega, String.toList_inj.mp heq⟩

/-- The first of the lines, if there is one, is less deep than a level. -/
def EndAt (level : ℕ) (lines : List String) : Prop :=
  ∀ line ∈ lines.head?, ∃ l < level, ∃ name, IsPlain name ∧ line = row l name

theorem EndAt.ne {lines : List String} (h : EndAt level (row level name :: lines))
    (hname : IsPlain name) : False := by
  obtain ⟨l, hl, name', hname', heq⟩ := h _ rfl
  exact absurd (row_inj hname hname' heq).1 (Nat.ne_of_gt hl)

theorem endAt_linesAll {rest : List String} (hos : AllPlain os) (h : EndAt level rest) :
    EndAt (level + 1) (linesAll level os ++ rest) := by
  intro line hline
  match os with
  | [] =>
    obtain ⟨l, hl, hname⟩ := h line hline
    exact ⟨l, Nat.lt_succ_of_lt hl, hname⟩
  | node name children :: os =>
    obtain rfl : row level name = line := Option.some.inj hline
    exact ⟨level, Nat.lt_succ_self level, name, (allPlain_cons_iff.mp hos).1, rfl⟩

/-- **Lines of a forest can be told from less deep lines behind them, and they determine the
forest.** -/
theorem linesAll_inj {rest rest' : List String} (hos : AllPlain os) (hos' : AllPlain os')
    (hrest : EndAt level rest) (hrest' : EndAt level rest')
    (h : linesAll level os ++ rest = linesAll level os' ++ rest') : os = os' ∧ rest = rest' := by
  induction os using forest_induction generalizing level os' rest rest' with
  | nil =>
    match os' with
    | [] => exact ⟨rfl, h⟩
    | node name children :: os' =>
      rw [linesAll_nil, List.nil_append] at h
      rw [h] at hrest
      exact (hrest.ne (allPlain_cons_iff.mp hos').1).elim
  | cons name children os ihchildren ihos =>
    obtain ⟨hname, hchildren, htail⟩ := allPlain_cons_iff.mp hos
    match os' with
    | [] =>
      rw [linesAll_nil, List.nil_append] at h
      rw [← h] at hrest'
      exact (hrest'.ne hname).elim
    | node name' children' :: tail =>
      obtain ⟨hname', hchildren', htail'⟩ := allPlain_cons_iff.mp hos'
      rw [linesAll_cons, linesAll_cons, List.cons_append, List.cons_append] at h
      obtain ⟨hrow, hbelow⟩ := List.cons.inj h
      obtain rfl := (row_inj hname hname' hrow).2
      rw [List.append_assoc, List.append_assoc] at hbelow
      -- the children end where the next tree or the rest begins
      obtain ⟨rfl, hbeside⟩ := ihchildren hchildren hchildren' (endAt_linesAll htail hrest)
        (endAt_linesAll htail' hrest') hbelow
      obtain ⟨rfl, rfl⟩ := ihos htail htail' hrest hrest' hbeside
      exact ⟨rfl, rfl⟩

theorem exists_of_mem_linesAll {line : String} (hos : AllPlain os)
    (hline : line ∈ linesAll level os) : ∃ l name, IsPlain name ∧ line = row l name := by
  induction os using forest_induction generalizing level with
  | nil => exact absurd hline List.not_mem_nil
  | cons name children os ihchildren ihos =>
    obtain ⟨hname, hchildren, hos⟩ := allPlain_cons_iff.mp hos
    rw [linesAll_cons, List.mem_cons, List.mem_append] at hline
    rcases hline with rfl | hline | hline
    · exact ⟨level, name, hname, rfl⟩
    · exact ihchildren hchildren hline
    · exact ihos hos hline

theorem IsPlain.newline_notMem_row (hname : IsPlain name) (level : ℕ) :
    '\n' ∉ (row level name).toList := by
  rw [row, String.toList_append, String.toList_ofList, List.mem_append, List.mem_replicate]
  rintro (⟨-, h⟩ | h)
  · exact absurd h (by decide)
  · exact hname.1 h

/-! ## Outlines of layers -/

theorem isPlain_leaf : ∀ l : Leaf, IsPlain l.name
  | .gridLines _ => show IsPlain "GridLines" by decide
  | .keyline _ => show IsPlain "Keyline" by decide
  | .fill _ => show IsPlain "Fill" by decide
  | .dimensionsLabel _ => show IsPlain "DimensionsLabel" by decide
  | .ratioKeyline _ => show IsPlain "RatioKeyline" by decide

theorem isPlain_group : ∀ g : Group, IsPlain g.name
  | .inset _ => show IsPlain "Inset" by decide
  | .columns ⟨.columns, _, _⟩ => show IsPlain "Columns" by decide
  | .columns ⟨.rows, _, _⟩ => show IsPlain "Rows" by decide

/-- The names of layers are plain. -/
theorem allPlain_ofAll : ∀ layers : List Layer, AllPlain (ofAll layers)
  | [] => allPlain_nil
  | .leaf _ l :: layers =>
    allPlain_cons_iff.mpr ⟨isPlain_leaf l, allPlain_nil, allPlain_ofAll layers⟩
  | .group _ g children :: layers =>
    allPlain_cons_iff.mpr ⟨isPlain_group g, allPlain_ofAll children, allPlain_ofAll layers⟩
termination_by layers => sizeOf layers

end Outline

/-! ## Texts -/

namespace Summary

variable {s s' : Summary}

/-- No line feed in the title, and plain names. -/
structure IsPlain (s : Summary) : Prop where
  title : ∀ title ∈ s.title, '\n' ∉ title.toList
  names : Outline.AllPlain s.layers

theorem newline_notMem_heading (h : s.IsPlain) : '\n' ∉ s.heading.toList := by
  have htitle : '\n' ∉ (s.title.getD "(untitled)").toList := by
    cases hs : s.title with
    | none => decide
    | some title => exact h.title title hs
  rw [heading, String.toList_append, List.mem_append]
  rintro (hmark | hmem)
  · exact absurd hmark (by decide)
  · exact htitle hmem

theorem splitOn_terminated {x : Char} {pieces : List (List Char)} (h : ∀ l ∈ pieces, x ∉ l) :
    (pieces.flatMap (· ++ [x])).splitOn x = pieces ++ [[]] := by
  induction pieces with
  | nil => rfl
  | cons l pieces ih =>
    obtain ⟨hl, h⟩ := List.forall_mem_cons.mp h
    rw [List.flatMap_cons, List.append_assoc, List.singleton_append,
      List.splitOn_append_cons_self_of_not_mem hl, ih h, List.cons_append]

/-- **The lines of the text are those of the outline**, each ended by a line feed. -/
theorem splitOn_text (h : s.IsPlain) :
    s.text.toList.splitOn '\n' =
      (s.heading :: Outline.linesAll 1 s.layers).map String.toList ++ [[]] := by
  have hlines : ∀ line ∈ (s.heading :: Outline.linesAll 1 s.layers).map String.toList,
      '\n' ∉ line := by
    intro line hline
    obtain ⟨line, hmem, rfl⟩ := List.mem_map.mp hline
    rcases List.mem_cons.mp hmem with rfl | hmem
    · exact newline_notMem_heading h
    · obtain ⟨l, name, hname, rfl⟩ := Outline.exists_of_mem_linesAll h.names hmem
      exact hname.newline_notMem_row l
  rw [← splitOn_terminated hlines, text, String.toList_join, List.flatMap_map, List.flatMap_map]
  simp only [String.toList_append]
  rfl

theorem text_inj (h : s.IsPlain) (h' : s'.IsPlain) (htext : s.text = s'.text) :
    s.layers = s'.layers ∧ s.title.getD "(untitled)" = s'.title.getD "(untitled)" := by
  have hsplit := congrArg (fun t => t.toList.splitOn '\n') htext
  simp only [splitOn_text h, splitOn_text h'] at hsplit
  have hlines := List.map_injective_iff.mpr (fun _ _ => String.toList_inj.mp)
    (List.append_cancel_right hsplit)
  obtain ⟨hheading, hlines⟩ := List.cons.inj hlines
  have hend : Outline.EndAt 1 [] := nofun
  refine ⟨(Outline.linesAll_inj h.names h'.names hend hend
    (congrArg (· ++ []) hlines)).1, ?_⟩
  have hchars := congrArg String.toList hheading
  rw [heading, heading, String.toList_append, String.toList_append] at hchars
  exact String.toList_inj.mp (List.append_cancel_left hchars)

end Summary

/-- **An outline shows the tree and nothing is lost.**

* If names are plain and titles have no line feed, outlines are equal if and only if the trees are
  and the titles are, where no title counts as the title `(untitled)`.
* Behind the title an outline has one line for each node.  They are in the lexicographic order of
  the paths, that is, each node before its children and these first to last, and a path of length
  `n` gives a line with `2 * n` spaces before the name.
* The names of built layers are plain. -/
theorem outline_determines :
    (∀ s s' : Summary, s.IsPlain → s'.IsPlain →
      (s.text = s'.text ↔ s.layers = s'.layers ∧
        s.title.getD "(untitled)" = s'.title.getD "(untitled)")) ∧
    (∀ s : Summary, s.IsPlain → ∃ paths : List (List ℕ), paths.Pairwise (· < ·) ∧
      (∀ path, path ∈ paths ↔ (Outline.nameAt? s.layers path).isSome) ∧
      s.text.toList.splitOn '\n' = ("# " ++ s.title.getD "(untitled)").toList ::
        paths.map (fun path => List.replicate (2 * path.length) ' ' ++
          ((Outline.nameAt? s.layers path).getD "").toList) ++ [[]]) ∧
    ∀ o : Overlay, (∀ title ∈ o.title, '\n' ∉ title.toList) → o.summary.IsPlain := by
  refine ⟨fun s s' h h' => ⟨Summary.text_inj h h', fun ⟨hlayers, htitle⟩ => ?_⟩, fun s h => ?_,
    fun o htitle => ⟨htitle, Outline.allPlain_ofAll o.layers⟩⟩
  · rw [Summary.text, Summary.text, Summary.heading, Summary.heading, hlayers, htitle]
  · refine ⟨Outline.pathsAll s.layers, Outline.pairwise_pathsAll _,
      fun path => Outline.mem_pathsAll_iff, ?_⟩
    rw [Summary.splitOn_text h, Outline.linesAll_eq, List.map_cons, List.map_map]
    simp [Function.comp_def, Outline.row, Summary.heading]

/-- An inset with a fill, and a fill behind it. -/
def nestedSummary (title : Option String) : Summary :=
  ⟨title, [.node "Inset" [.node "Fill" []], .node "Fill" []]⟩

/-- An outline without a title, and one with the title that stands for none. -/
theorem outline_determines_of_nested :
    (nestedSummary none).IsPlain ∧ (nestedSummary (some "(untitled)")).IsPlain ∧
      (nestedSummary none).text = (nestedSummary (some "(untitled)")).text := by
  have hnames : Outline.AllPlain (nestedSummary none).layers := by
    simp only [nestedSummary, Outline.allPlain_cons_iff, Outline.allPlain_nil, and_true]
    decide
  have htitle : ∀ title ∈ (nestedSummary (some "(untitled)")).title, '\n' ∉ title.toList := by
    rintro _ ⟨⟩
    decide
  have hplain : (nestedSummary none).IsPlain := ⟨nofun, hnames⟩
  have hplain' : (nestedSummary (some "(untitled)")).IsPlain := ⟨htitle, hnames⟩
  exact ⟨hplain, hplain', (outline_determines.1 _ _ hplain hplain').mpr ⟨rfl, rfl⟩⟩

end SpecOverlay
