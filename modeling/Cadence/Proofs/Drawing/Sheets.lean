import Cadence.Proofs.Session.Notices

/-!
A screen refines a pair of lists and a counter. Which of its two lists is drawn on changes with every flip; its users
see one list that they draw on, which starts out from what was presented before the last flip unless it is cleared, and
one that is presented, in order of its layers if the screen sorts.
-/

namespace Cadence

/-! ### Lists in order of their layers -/

theorem mem_iff_of_layers {xs ys : List Primitive}
    (hlayers : ∀ layer, xs.filter (·.layer = layer) = ys.filter (·.layer = layer)) (p : Primitive) :
    p ∈ xs ↔ p ∈ ys := by
  have hsame : p ∈ xs.filter (·.layer = p.layer) ↔ p ∈ ys.filter (·.layer = p.layer) := by rw [hlayers]
  simpa using hsame

theorem layer_le_of_mem {p q : Primitive} {ps : List Primitive} (hps : (p :: ps).Pairwise (·.layer ≤ ·.layer))
    (hq : q ∈ p :: ps) : p.layer ≤ q.layer := by
  rcases List.mem_cons.mp hq with rfl | hq
  · exact Int32.le_refl _
  · exact (List.pairwise_cons.mp hps).1 q hq

/-- Two lists in order of their layers are the same if they are the same on each layer. -/
theorem eq_of_layers {xs ys : List Primitive} (hxs : xs.Pairwise (·.layer ≤ ·.layer))
    (hys : ys.Pairwise (·.layer ≤ ·.layer))
    (hlayers : ∀ layer, xs.filter (·.layer = layer) = ys.filter (·.layer = layer)) : xs = ys := by
  induction xs generalizing ys with
  | nil =>
    cases ys with
    | nil => rfl
    | cons y ys => exact absurd ((mem_iff_of_layers hlayers y).mpr List.mem_cons_self) (by simp)
  | cons x xs ih =>
    cases ys with
    | nil => exact absurd ((mem_iff_of_layers hlayers x).mp List.mem_cons_self) (by simp)
    | cons y ys =>
      -- the first of each list has the lowest layer of all, so both are on one layer and come first on it
      have hlayer : y.layer = x.layer :=
        Int32.le_antisymm (layer_le_of_mem hys ((mem_iff_of_layers hlayers x).mp List.mem_cons_self))
          (layer_le_of_mem hxs ((mem_iff_of_layers hlayers y).mpr List.mem_cons_self))
      have hfirst := hlayers x.layer
      rw [List.filter_cons_of_pos (by simp), List.filter_cons_of_pos (by simpa using hlayer)] at hfirst
      obtain ⟨rfl, _⟩ := List.cons.inj hfirst
      rw [ih hxs.of_cons hys.of_cons fun layer => ?_]
      have hboth := hlayers layer
      by_cases hx : x.layer = layer
      · rw [List.filter_cons_of_pos (by simpa using hx), List.filter_cons_of_pos (by simpa using hx)] at hboth
        exact (List.cons.inj hboth).2
      · rwa [List.filter_cons_of_neg (by simpa using hx), List.filter_cons_of_neg (by simpa using hx)] at hboth

/-- What is presented of a list is determined by the list. -/
theorem Shown.unique {layered : Bool} {drawn shown shown' : List Primitive} (h : Shown layered drawn shown)
    (h' : Shown layered drawn shown') : shown' = shown := by
  unfold Shown at h h'
  split at h
  · rw [if_pos ‹_›] at h'
    exact eq_of_layers h'.ordered h.ordered fun layer => (h'.stable layer).trans (h.stable layer).symm
  · rw [if_neg ‹_›] at h'
    rw [h, h']

namespace Screen

/-! ### Strokes -/

/-- What is done to a screen in order to draw. -/
inductive Stroke
  | submit (p : Primitive)
  | submitAll (ps : Array Primitive)
  | flip
  | clearActive

/-- What a screen answers to a stroke. -/
inductive Stroke.Answer
  | nothing
  | appended (count : Nat)
  | notice (notice : Notice)

open Stroke (Answer)

def draw (s : Screen) : Stroke → Answer × Screen
  | .submit p => (.nothing, s.submit p)
  | .submitAll ps =>
    let (count, s) := s.submitAll ps
    (.appended count, s)
  | .flip =>
    let (notice, s) := s.flip
    (.notice notice, s)
  | .clearActive => (.nothing, s.clearActive)

/-- The answers to strokes that are made one after the other, and the screen that they leave. -/
def drawAll (s : Screen) : List Stroke → List Answer × Screen
  | [] => ([], s)
  | stroke :: rest =>
    let (answer, s) := s.draw stroke
    let (answers, s) := drawAll s rest
    (answer :: answers, s)

/-! ### Sheets -/

/-- A screen as its users see it: what they have drawn, what is presented, and how many flips there have been. -/
structure Sheets where
  active : List Primitive := []
  presented : List Primitive := []
  flips : Nat := 0

namespace Sheets

/-- What a stroke does to the sheets, and its answer. -/
inductive Step (layered : Bool) : Sheets → Stroke → Answer → Sheets → Prop
  | submit (a : Sheets) (p : Primitive) :
      Step layered a (.submit p) .nothing { a with active := a.active ++ [p] }
  | submitAll (a : Sheets) (ps : Array Primitive) :
      Step layered a (.submitAll ps) (.appended ps.size) { a with active := a.active ++ ps.toList }
  | flip (a : Sheets) {shown : List Primitive} (hshown : Shown layered a.active shown) :
      Step layered a .flip (.notice ⟨a.flips + 1, a.active.length⟩)
        { active := a.presented, presented := shown, flips := a.flips + 1 }
  | clearActive (a : Sheets) : Step layered a .clearActive .nothing { a with active := [] }

inductive Steps (layered : Bool) : Sheets → List Stroke → List Answer → Sheets → Prop
  | nil (a : Sheets) : Steps layered a [] [] a
  | cons {a a' a'' : Sheets} {stroke : Stroke} {answer : Answer} {rest : List Stroke} {answers : List Answer}
      (step : Step layered a stroke answer a') (steps : Steps layered a' rest answers a'') :
      Steps layered a (stroke :: rest) (answer :: answers) a''

variable {layered : Bool} {a a' a'' : Sheets} {stroke : Stroke} {answer answer' : Answer}

theorem Step.unique (h : Step layered a stroke answer a') (h' : Step layered a stroke answer' a'') :
    answer' = answer ∧ a'' = a' := by
  cases h with
  | submit | submitAll | clearActive =>
    cases h'
    exact ⟨rfl, rfl⟩
  | flip hshown =>
    cases h' with
    | flip hshown' => exact ⟨rfl, by rw [hshown.unique hshown']⟩

theorem Steps.unique {strokes : List Stroke} {answers answers' : List Answer}
    (h : Steps layered a strokes answers a') (h' : Steps layered a strokes answers' a'') :
    answers' = answers ∧ a'' = a' := by
  induction h generalizing answers' with
  | nil =>
    cases h'
    exact ⟨rfl, rfl⟩
  | cons step _ ih =>
    cases h' with
    | cons step' steps' =>
      obtain ⟨rfl, rfl⟩ := step.unique step'
      obtain ⟨rfl, rfl⟩ := ih steps'
      exact ⟨rfl, rfl⟩

end Sheets

/-! ### Refinement -/

/-- The screen looks like the sheets. -/
structure Shows (layered : Bool) (s : Screen) (a : Sheets) : Prop where
  sorts : s.layered = layered
  active : s.active.items.toList = a.active
  presented : s.presentable.items.toList = a.presented
  frame : s.frame = a.flips
  stamp : s.presentable.frame = a.flips
  index : s.drawn.index = a.flips % 2

theorem shows_blank (layered : Bool) (size : Nat) : Shows layered (blank layered size) {} :=
  ⟨rfl, rfl, rfl, rfl, rfl, rfl⟩

variable (s : Screen)

@[simp] theorem active_modifyActive (f : DrawList → DrawList) : (s.modifyList s.drawn f).active = f s.active := by
  rw [active, drawn_modifyList, list_modifyList_self, active]

@[simp] theorem presentable_modifyActive (f : DrawList → DrawList) :
    (s.modifyList s.drawn f).presentable = s.presentable := by
  rw [presentable, drawn_modifyList, list_modifyList_other, presentable]

@[simp] theorem layered_modifyList (side : Side) (f : DrawList → DrawList) :
    (s.modifyList side f).layered = s.layered := by cases side <;> rfl

theorem active_flip : s.flip.2.active = s.presentable := by
  obtain ⟨_, _, drawn, _, _, _, _⟩ := s
  cases drawn <;> rfl

/-- Clearing the other list afterwards makes no difference to what is presented. -/
theorem presentable_flip : s.flip.2.presentable = s.turned.presentable := (presentable_modifyActive ..).symm

theorem drawn_flip : s.flip.2.drawn = s.drawn.other := congrArg Side.other (drawn_modifyList ..)

theorem layered_flip : s.flip.2.layered = s.layered := layered_modifyList ..

theorem presentable_draw {stroke : Stroke} (hstroke : stroke ≠ .flip) :
    (s.draw stroke).2.presentable = s.presentable := by
  cases stroke with
  | flip => exact absurd rfl hstroke
  | submit | submitAll | clearActive => exact presentable_modifyActive ..

namespace Shows

variable {layered : Bool} {s : Screen} {a : Sheets}

/-- Whatever is done to the list that is being drawn on, the rest looks as before. -/
theorem modifyActive (h : Shows layered s a) (f : DrawList → DrawList) :
    Shows layered (s.modifyList s.drawn f) { a with active := (f s.active).items.toList } where
  sorts := by rw [layered_modifyList, h.sorts]
  active := by rw [active_modifyActive]
  presented := by rw [presentable_modifyActive, h.presented]
  frame := by rw [frame_modifyList, h.frame]
  stamp := by rw [presentable_modifyActive, h.stamp]
  index := by rw [drawn_modifyList, h.index]

theorem flip (h : Shows layered s a) :
    Shows layered s.flip.2
      { active := a.presented, presented := s.turned.presentable.items.toList, flips := a.flips + 1 } where
  sorts := by rw [layered_flip, h.sorts]
  active := by rw [active_flip, h.presented]
  presented := by rw [presentable_flip]
  frame := congrArg (· + 1) h.frame
  stamp := by rw [presentable_flip, s.shown_turned.1, h.frame]
  index := by
    have hindex := h.index
    rw [drawn_flip]
    cases hdrawn : s.drawn <;> simp only [hdrawn, Side.other, Side.index] at hindex ⊢ <;> omega

/-- The screen does with each stroke what the sheets do, and answers the same. -/
theorem draw (h : Shows layered s a) (stroke : Stroke) :
    ∃ a', Sheets.Step layered a stroke (s.draw stroke).1 a' ∧ Shows layered (s.draw stroke).2 a' := by
  cases stroke with
  | submit p =>
    have hafter := h.modifyActive (·.push p)
    rw [DrawList.items_push, Array.toList_push, h.active] at hafter
    exact ⟨_, .submit a p, hafter⟩
  | submitAll ps =>
    have hafter := h.modifyActive (·.extend ps)
    rw [DrawList.items_extend, Array.toList_append, h.active] at hafter
    have hcount : (s.submitAll ps).1 = ps.size := by
      simp [Screen.submitAll, DrawList.size]
    have hstep : Sheets.Step layered a (.submitAll ps) (.appended ps.size) _ := .submitAll a ps
    rw [← hcount] at hstep
    exact ⟨_, hstep, hafter⟩
  | flip =>
    have hshown := s.shown_turned.2
    rw [h.sorts, h.active] at hshown
    have hnotice : s.flip.1 = ⟨a.flips + 1, a.active.length⟩ := by
      rw [← h.frame, ← h.active]
      rfl
    refine ⟨_, ?_, h.flip⟩
    have hstep := Sheets.Step.flip a hshown
    rw [← hnotice] at hstep
    exact hstep
  | clearActive => exact ⟨_, .clearActive a, h.modifyActive (·.clear)⟩

theorem drawAll (h : Shows layered s a) (strokes : List Stroke) :
    ∃ a', Sheets.Steps layered a strokes (s.drawAll strokes).1 a' ∧ Shows layered (s.drawAll strokes).2 a' := by
  induction strokes generalizing s a with
  | nil => exact ⟨a, .nil a, h⟩
  | cons stroke rest ih =>
    obtain ⟨a', hstep, hshows⟩ := h.draw stroke
    obtain ⟨a'', hsteps, hshows'⟩ := ih hshows
    exact ⟨a'', .cons hstep hsteps, hshows'⟩

end Shows

/-- A screen refines the sheets. Whatever is drawn on a blank screen, the sheets have one run with these strokes: the
screen answers what they answer in it, and looks like them in the end. Its frame number and the stamp of the list that
is presented are the number of the flips, and so its parity tells which list is drawn on; and what is presented changes
by a flip alone. -/
theorem screen_refines_sheets (layered : Bool) (size : Nat) (strokes : List Stroke) :
    let answers := ((blank layered size).drawAll strokes).1
    let s := ((blank layered size).drawAll strokes).2
    (∃ a, Sheets.Steps layered {} strokes answers a ∧ Shows layered s a ∧
      ∀ answers' a', Sheets.Steps layered {} strokes answers' a' → answers' = answers ∧ a' = a) ∧
    ∀ stroke ≠ .flip, (s.draw stroke).2.presentable = s.presentable := by
  obtain ⟨a, hsteps, hshows⟩ := (shows_blank layered size).drawAll strokes
  exact ⟨⟨a, hsteps, hshows, fun _ _ hsteps' => hsteps.unique hsteps'⟩, fun _ => presentable_draw _⟩

end Screen

end Cadence
