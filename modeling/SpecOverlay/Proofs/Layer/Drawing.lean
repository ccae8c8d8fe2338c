import SpecOverlay.Overlay
import SpecOverlay.Proofs.Canvas.Calls

/-!
# What drawing records

To draw is to append commands to a canvas.  For every layer these commands are fixed by the
layer and the bounds (`Layer.recording`), and appending them is all that happens: the canvas
keeps its clip and the clips it can go back to (`Records`).  `drawing_records` gives the
commands of overlays and groups as well, from those of the layers in them.

* `Records` is closed under what drawing consists of: painting (`records_record`), one thing
  after another (`Records.comp`, `Records.foldl`), and drawing between a save and the restore
  that belongs to it, with or without a clip after the save (`Records.framed`).
* So it holds of every layer, by induction on the tree (`Layer.records_draw`).
* Nothing about the canvas enters the commands, and so they can be read off a blank one
  (`Records.recording_eq`).
-/

namespace SpecOverlay

/-! ## Drawing that only records -/

/-- Drawing records some commands, if these restore what they save, and if they are appended
to those of the canvas, whichever it is, while its clip and its clips to go back to stay as
they are. -/
structure Records (draw : Canvas → Canvas) (commands : List Command) : Prop where
  balanced : Balanced commands
  commands_eq : ∀ c, (draw c).commands.toList = c.commands.toList ++ commands
  clip_eq : ∀ c, (draw c).clip = c.clip
  saved_eq : ∀ c, (draw c).saved = c.saved

/-- The commands that drawing records on a blank canvas. -/
def recordingOf (draw : Canvas → Canvas) : List Command :=
  (draw .blank).commands.toList

/-- A canvas is opened if its clip is saved and some commands are recorded after the save.
The clip itself may be narrowed. -/
structure Opens (opening : Canvas → Canvas) (first : List Command) : Prop where
  balanced : Balanced first
  commands_eq : ∀ c, (opening c).commands.toList = c.commands.toList ++ .save :: first
  saved_eq : ∀ c, (opening c).saved = c.clip :: c.saved

theorem opens_save : Opens Canvas.save [] where
  balanced := balanced_nil
  commands_eq _ := Array.toList_push
  saved_eq _ := rfl

theorem opens_clip (bounds : Rect Float32) :
    Opens (fun c => c.save.clipRect bounds) [.clip bounds] where
  balanced := balanced_singleton Command.noConfusion Command.noConfusion
  commands_eq c := by
    rw [Canvas.clipRect, Canvas.commands_record, Array.toList_push, opens_save.commands_eq,
      List.append_assoc, List.singleton_append]
  saved_eq _ := rfl

/-- Painting records the one command. -/
theorem records_record {command : Command} (hsave : command ≠ .save)
    (hrestore : command ≠ .restore) : Records (Canvas.record · command) [command] where
  balanced := balanced_singleton hsave hrestore
  commands_eq _ := Array.toList_push
  clip_eq _ := rfl
  saved_eq _ := rfl

theorem records_drawRect (rect : Rect Float32) (color : Color) :
    Records (Canvas.drawRect · rect color) [.rect rect color] :=
  records_record Command.noConfusion Command.noConfusion

theorem records_drawText (anchor : Point Float32) (text : String) (style : TextStyle) :
    Records (Canvas.drawText · anchor text style) [.text anchor text style] :=
  records_record Command.noConfusion Command.noConfusion

namespace Records

variable {draw draw' : Canvas → Canvas} {commands commands' : List Command}

theorem recording_eq (h : Records draw commands) : recordingOf draw = commands :=
  h.commands_eq .blank

theorem recording (h : Records draw commands) : Records draw (recordingOf draw) :=
  h.recording_eq.symm ▸ h

/-- Drawing nothing records nothing. -/
theorem nil : Records (fun c => c) [] where
  balanced := balanced_nil
  commands_eq _ := (List.append_nil _).symm
  clip_eq _ := rfl
  saved_eq _ := rfl

/-- Drawing one thing after another records the commands of both, in order. -/
theorem comp (h : Records draw commands) (h' : Records draw' commands') :
    Records (fun c => draw' (draw c)) (commands ++ commands') where
  balanced := h.balanced.append h'.balanced
  commands_eq c := by rw [h'.commands_eq, h.commands_eq, List.append_assoc]
  clip_eq c := by rw [h'.clip_eq, h.clip_eq]
  saved_eq c := by rw [h'.saved_eq, h.saved_eq]

/-- Drawing many things records the commands of each, in order. -/
theorem foldl {α : Type} {draw : Canvas → α → Canvas} {commands : α → List Command}
    (h : ∀ a, Records (draw · a) (commands a)) (as : List α) :
    Records (as.foldl draw ·) (as.flatMap commands) := by
  induction as with
  | nil => exact nil
  | cons a as ih => exact (h a).comp ih

/-- **Drawing between a save and the restore that belongs to it** leaves the clip as it was,
also if the clip is narrowed in between. -/
theorem framed {opening : Canvas → Canvas} {first : List Command} (h : Records draw commands)
    (hopening : Opens opening first) :
    Records (fun c => (draw (opening c)).restore) (.save :: (first ++ commands) ++ [.restore]) := by
  have hrestore (c : Canvas) : (draw (opening c)).restore =
      { (draw (opening c)).record .restore with clip := c.clip, saved := c.saved } := by
    rw [Canvas.restore, h.saved_eq, hopening.saved_eq]
  refine ⟨(hopening.balanced.append h.balanced).enclosed, fun c => ?_, fun c => ?_, fun c => ?_⟩
  · rw [hrestore, Canvas.commands_record, Array.toList_push, h.commands_eq, hopening.commands_eq,
      List.append_assoc, List.append_assoc, List.cons_append, List.cons_append, List.append_assoc]
  · rw [hrestore]
  · rw [hrestore]

end Records

/-! ## Layers and overlays -/

/-- The commands that drawing a layer into bounds records. -/
def Layer.recording (bounds : Rect Float32) (l : Layer) : List Command :=
  recordingOf (l.draw bounds ·)

/-- The commands that drawing an overlay into bounds records. -/
def Overlay.recording (bounds : Rect Float32) (o : Overlay) : List Command :=
  recordingOf (o.draw bounds ·)

variable {bounds : Rect Float32} {children : List Layer}

theorem Leaf.records_draw (bounds : Rect Float32) (l : Leaf) :
    Records (l.draw bounds ·) (recordingOf (l.draw bounds ·)) := by
  cases l with
  | gridLines g => exact (Records.foldl (records_drawRect · g.color) (g.rects bounds)).recording
  | keyline k => exact (records_drawRect _ _).recording
  | fill f => exact (records_drawRect _ _).recording
  | dimensionsLabel l => exact (records_drawText _ _ _).recording
  | ratioKeyline k => exact (records_drawRect _ _).recording

/-- An inset puts what its children record between a save and a restore. -/
theorem Layer.records_inset {i : Inset Float32} {commands : List Command}
    (h : Records (drawAll (i.inner bounds) · children) commands) (id : Nat) :
    Records (draw bounds · (.group id (.inset i) children))
      (.save :: ((if i.clips then [.clip (i.inner bounds)] else []) ++ commands) ++
        [.restore]) := by
  refine h.framed ?_
  cases i.clips
  · exact opens_save
  · exact opens_clip _

/-- Columns and rows do so in every cell. -/
theorem Layer.records_columns {commands : Rect Float32 → List Command}
    (h : ∀ cell, Records (drawAll cell · children) (commands cell)) (id : Nat) (c : Columns) :
    Records (draw bounds · (.group id (.columns c) children))
      ((c.cells bounds).flatMap fun cell =>
        .save :: .clip cell :: commands cell ++ [.restore]) :=
  .foldl (fun cell => (h cell).framed (opens_clip cell)) _

mutual

/-- Drawing a layer only records. -/
theorem Layer.records_draw (bounds : Rect Float32) :
    ∀ l : Layer, Records (l.draw bounds ·) (l.recording bounds)
  | .leaf _ l => l.records_draw bounds
  | .group id (.inset i) children =>
    (records_inset (records_drawAll (i.inner bounds) children) id).recording
  | .group id (.columns c) children =>
    (records_columns (fun cell => records_drawAll cell children) id c).recording

/-- Drawing layers only records, those of an earlier layer first. -/
theorem Layer.records_drawAll (bounds : Rect Float32) :
    ∀ ls : List Layer, Records (drawAll bounds · ls) (ls.flatMap (·.recording bounds))
  | [] => .nil
  | l :: ls => (records_draw bounds l).comp (records_drawAll bounds ls)

end

/-- **Drawing is compositional and leaves the clip alone.**  Every layer and every overlay
records commands that only it and the bounds decide.  Those of an overlay are those of its
layers, in order.  An inset puts those of its children in its inner bounds between a save,
the clip to these bounds if it clips, and a restore, and columns and rows do so in every cell,
first to last. -/
theorem drawing_records :
    (∀ (bounds : Rect Float32) (l : Layer), Records (l.draw bounds ·) (l.recording bounds)) ∧
    (∀ (bounds : Rect Float32) (o : Overlay), Records (o.draw bounds ·) (o.recording bounds) ∧
      o.recording bounds = o.layers.flatMap (·.recording bounds)) ∧
    (∀ (bounds : Rect Float32) (id : Nat) (i : Inset Float32) (children : List Layer),
      (Layer.group id (.inset i) children).recording bounds =
        .save :: ((if i.clips then [.clip (i.inner bounds)] else []) ++
          children.flatMap (·.recording (i.inner bounds))) ++ [.restore]) ∧
    (∀ (bounds : Rect Float32) (id : Nat) (c : Columns) (children : List Layer),
      (Layer.group id (.columns c) children).recording bounds =
        (c.cells bounds).flatMap fun cell =>
          .save :: .clip cell :: children.flatMap (·.recording cell) ++ [.restore]) := by
  refine ⟨Layer.records_draw, fun bounds o => ?_, fun bounds id i children => ?_,
    fun bounds id c children => ?_⟩
  · have h : Records (o.draw bounds ·) (o.layers.flatMap (·.recording bounds)) :=
      Layer.records_drawAll bounds o.layers
    exact ⟨h.recording, h.recording_eq⟩
  · exact (Layer.records_inset (Layer.records_drawAll (i.inner bounds) children) id).recording_eq
  · exact (Layer.records_columns (fun cell => Layer.records_drawAll cell children) id
      c).recording_eq

end SpecOverlay
